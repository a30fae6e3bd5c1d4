import Miranda.Printing.Shapes

/-!
# Printing matrices

`SerializeMatrix` copies the elements of a matrix in the order they are stored, column by
column, each in network byte order. `PrintMatrix` prints them row by row: it computes the place
of an element as an `int` and hands `PrintField` that element alone. There is no number of bytes
that are left in the input.

The host has its least significant byte first. If the number of elements is no `int`,
`SerializeMatrix` has no result.
-/

namespace Miranda.Printing

open Bytes Printers QCompiler List
open LogFile (SizeT)
open QueueTypes (TypeId isPrimitive primitiveOf sizeof)

/-- `SerializeMatrix`, from one memory to another. It dies for a type that is not primitive or
has an illegal size. -/
def serializeMatrix (typeId : TypeId) (memory : Image) (output : Nat) (host : Image) (input : Nat)
    (rows cols : Int32) : Option Image :=
  let elementSize := (sizeof typeId).toNat
  let count := rows.toInt * cols.toInt
  if isPrimitive typeId = false then none
  else if count < -2 ^ 31 ∨ 2 ^ 31 ≤ count then none
  else (List.range count.toNat).foldlM (fun memory index =>
    if elementSize ∈ [1, 2, 4, 8] then
      some (store memory (output + index * elementSize)
        (load host (input + index * elementSize) elementSize).reverse)
    else none) memory

section Printers

variable (sizeT : SizeT) (digest : List Char → BitVec 16) (formats : Formats) (input : Window)

/-- The address of an element. -/
def elementAddress (source elementSize : Nat) (rows row col : Int32) : Nat :=
  ((source + (row + col * rows).toInt * elementSize) % sizeT.modulus).toNat

/-- The call of `PrintField` for an element, which has to use up its bytes. -/
def printMatrixElement (typeId : TypeId) (elementSize address : Nat) (cursor : Cursor) : Outcome :=
  match printField digest formats input typeId
      { cursor with input := address, inputBytes := elementSize } with
  | .returned after =>
    if after.inputBytes ≠ 0 then .died
    else .returned { cursor with
      memory := after.memory
      output := cursor.output + cursor.outputBytes - after.outputBytes
      outputBytes := after.outputBytes }
  | .failed after =>
    .failed { cursor with memory := after.memory, outputBytes := after.outputBytes }
  | .outside => .outside
  | .died => .died

/-- A row of a matrix. -/
def printRow (typeId : TypeId) (source : Nat) (rows cols : Int32) (row : Nat) : Cursor → Outcome :=
  andThen (andThen (put [91]) (each separator true ((List.range cols.toInt.toNat).map fun col =>
    printMatrixElement digest formats input typeId (sizeof typeId).toNat
      (elementAddress sizeT source (sizeof typeId).toNat rows (Int32.ofNat row) (Int32.ofNat col)))))
    (put [93])

/-- All rows of a matrix. -/
def printRows (typeId : TypeId) (source : Nat) (rows cols : Int32) : Cursor → Outcome :=
  andThen (andThen (put [91]) (each separator true ((List.range rows.toInt.toNat).map
    (printRow sizeT digest formats input typeId source rows cols)))) (put [93, 0])

/-- `PrintMatrix`. -/
def printMatrix (typeId : TypeId) (rows cols : Int32) (cursor : Cursor) : Outcome :=
  if isPrimitive typeId = false then .died
  else printRows sizeT digest formats input typeId cursor.input rows cols cursor

end Printers

/-- The text of a matrix from the bytes of its elements. -/
def matrixText (formats : Formats) (type : Primitive) (rows cols : Nat)
    (element : Nat → Nat → List UInt8) : List UInt8 :=
  [91] ++ separator.intercalate ((List.range rows).map fun row =>
    [91] ++ separator.intercalate ((List.range cols).map fun col =>
      valueText formats type (element row col)) ++ [93]) ++ [93]

section Ids

variable {digest : List Char → BitVec 16} {typeId : TypeId} {type : Primitive}

section

variable (known : primitiveOf digest typeId = some type)
include known

theorem typeId_of_primitiveOf :
    typeId = type.typeId digest := by
  have same := find?_some known
  exact (beq_iff_eq.mp same).symm

theorem isPrimitive_of_primitiveOf :
    isPrimitive typeId = true := by
  rw [typeId_of_primitiveOf known]
  exact isPrimitive_primitive type

/-- The size in the id of a primitive type is its size. -/
theorem sizeof_of_primitiveOf :
    (sizeof typeId).toNat = type.size := by
  have low : (typeId &&& 0xFFFF#32).toNat = 0x2000 ||| type.size := by
    have shifted : (digest type.text).toNat <<< 16 % 2 ^ 16 = 0 := by
      rw [Nat.shiftLeft_eq, Nat.mul_mod_left]
    have small : (0x2000 ||| type.size) % 2 ^ 16 = 0x2000 ||| type.size := by
      cases type <;> rfl
    rw [typeId_of_primitiveOf known, BitVec.toNat_and, Primitive.typeId, BitVec.toNat_ofNat,
      show (0xFFFF#32).toNat = 2 ^ 16 - 1 from rfl, Nat.and_two_pow_sub_one_eq_mod,
      Nat.mod_mod_of_dvd _ (by decide), Primitive.getTypeID, Nat.or_assoc, Nat.or_mod_two_pow,
      shifted, small, Nat.zero_or]
  rw [sizeof, isPrimitive_of_primitiveOf known, if_pos rfl, BitVec.toNat_sub, low]
  cases type <;> rfl

end

end Ids

section Serializing

variable {typeId : TypeId} {type : Primitive} {memory host serialized : Image}
  {output input : Nat} {rows cols : Int32}

/-- Elements that are copied one after the other are there in the end. -/
theorem holds_copied {copied : Nat → List UInt8} {width : Nat}
    (lengths : ∀ index, (copied index).length = width) (count : Nat) {index : Nat}
    (inside : index < count) :
    Holds ((List.range count).foldl
        (fun memory index => store memory (output + index * width) (copied index)) memory)
      (output + index * width) (copied index) := by
  induction count with
  | zero => omega
  | succ count ih =>
    rw [range_succ, foldl_append]
    by_cases last : index = count
    · subst last
      exact holds_store _ _ _
    · have before : index * width + width ≤ count * width := by
        rw [← Nat.succ_mul]
        exact Nat.mul_le_mul_right width (by omega)
      refine (ih (by omega)).congr (store_agree (.inl ?_))
      rw [lengths]
      omega

/-- `SerializeMatrix` writes every element in network byte order. -/
theorem serializeMatrix_holds {digest : List Char → BitVec 16}
    (known : primitiveOf digest typeId = some type)
    (done : serializeMatrix typeId memory output host input rows cols = some serialized) :
    (-2 ^ 31 ≤ rows.toInt * cols.toInt ∧ rows.toInt * cols.toInt < 2 ^ 31) ∧
      ∀ index < (rows.toInt * cols.toInt).toNat,
        Holds serialized (output + index * type.size)
          (load host (input + index * type.size) type.size).reverse := by
  have legal : type.size ∈ [1, 2, 4, 8] := by
    cases type <;> decide
  simp only [serializeMatrix, isPrimitive_of_primitiveOf known, sizeof_of_primitiveOf known,
    Bool.true_eq_false, if_false, if_pos legal] at done
  split at done
  · cases done
  · next range =>
    have copied : some _ = some serialized :=
      foldlM_pure.symm.trans done
    cases copied
    refine ⟨by omega, fun index inside => ?_⟩
    exact holds_copied (fun index => by rw [length_reverse, length_load]) _ inside

end Serializing

section Elements

variable {sizeT : SizeT} {digest : List Char → BitVec 16} {formats : Formats} {input : Window}
  {typeId : TypeId} {type : Primitive} {window : Window} {number position : Nat}

/-- An element that is inside of the input is printed. -/
theorem printMatrixElement_follows (known : primitiveOf digest typeId = some type) {address : Nat}
    (low : input.start ≤ address) (high : address + type.size ≤ input.start + input.size) :
    FollowsText window number (printMatrixElement digest formats input typeId type.size address)
      position (valueText formats type (load input.image address type.size)) 0 .left := by
  obtain ⟨need, least, most, follows⟩ := printCase_follows formats input type address
  have ends : Walk.take _ type.size = .left 0 := Walk.take_eq_left.mpr (Nat.zero_add _)
  have field : ∀ cursor, printField digest formats input typeId cursor =
      printCase formats input type cursor := fun cursor => by rw [printField, known]
  refine ⟨⟨need, least, most, ?_, ?_, ?_, ?_⟩, overruns_left _ _ _ _ _⟩
  · intro bytes rest
    rw [Walk.left.injEq, Nat.add_zero, eq_comm]
  · intro cursor _ _ _ _ room
    have inside : Inside input { cursor with input := address, inputBytes := type.size } :=
      ⟨low, high⟩
    obtain ⟨after, returned, counted⟩ := follows.returns rfl inside ends room
    have used := counted.inputBytes
    have written := counted.outputBytes
    dsimp only at used written
    refine ⟨{ cursor with
      memory := after.memory
      output := cursor.output + cursor.outputBytes - after.outputBytes
      outputBytes := after.outputBytes }, ?_, ⟨counted.holds, counted.same, written, rfl⟩, ?_, rfl⟩
    · rw [printMatrixElement, field, returned]
      exact if_neg (by omega)
    · dsimp only
      omega
  · intro cursor _ _ _ _ room
    have inside : Inside input { cursor with input := address, inputBytes := type.size } :=
      ⟨low, high⟩
    obtain ⟨after, failed, stopped⟩ := follows.fails rfl inside ends room
    refine ⟨{ cursor with memory := after.memory, outputBytes := after.outputBytes }, ?_,
      stopped.same, Nat.le_refl _⟩
    rw [printMatrixElement, field, failed]
  · intro cursor _ _ ends
    cases ends

variable {cols rows : Int32} {row source : Nat}

/-- The place of an element is an `int` if the number of elements is. -/
theorem elementAddress_eq {col : Nat} (rowInside : row < rows.toInt.toNat)
    (colInside : col < cols.toInt.toNat) (small : rows.toInt * cols.toInt < 2 ^ 31) {size : Nat}
    (addressable : source + (rows.toInt * cols.toInt).toNat * size < sizeT.modulus) :
    elementAddress sizeT source size rows (Int32.ofNat row) (Int32.ofNat col) =
        source + (row + col * rows.toInt.toNat) * size ∧
      row + col * rows.toInt.toNat < (rows.toInt * cols.toInt).toNat := by
  obtain ⟨height, tall⟩ := Int.eq_ofNat_of_zero_le (show 0 ≤ rows.toInt by omega)
  obtain ⟨width, wide⟩ := Int.eq_ofNat_of_zero_le (show 0 ≤ cols.toInt by omega)
  have count : (rows.toInt * cols.toInt).toNat = height * width := by
    rw [tall, wide]
    rfl
  rw [count] at addressable ⊢
  rw [tall, Int.toNat_natCast] at rowInside ⊢
  rw [wide] at colInside
  have product : height * width < 2 ^ 31 := by
    rw [tall, wide] at small
    exact_mod_cast small
  have column : col * height + height ≤ height * width := by
    rw [← Nat.succ_mul, Nat.mul_comm height]
    exact Nat.mul_le_mul_right height colInside
  have inside : row + col * height < height * width := by omega
  have rowWord : (Int32.ofNat row).toInt = row := Int32.toInt_ofNat_of_lt (by omega)
  have colWord : (Int32.ofNat col).toInt = col := by
    have one := Nat.le_mul_of_pos_left width (show 0 < height by omega)
    exact Int32.toInt_ofNat_of_lt (by omega)
  have index : (.ofNat row + .ofNat col * rows).toInt = (row + col * height : Nat) := by
    have products : (col : Int) * height = (col * height : Nat) := (Int.natCast_mul col height).symm
    rw [Int32.toInt_add, Int32.toInt_mul, rowWord, colWord, tall, products,
      Signed.bmod_natCast (by omega), ← Int.natCast_add, Signed.bmod_natCast (by omega)]
  have below : (row + col * height) * size ≤ height * width * size :=
    Nat.mul_le_mul_right size (Nat.le_of_lt inside)
  refine ⟨?_, inside⟩
  rw [elementAddress, index, ← Int.natCast_mul, ← Int.natCast_add, ← Int.natCast_emod,
    Int.toNat_natCast, Nat.mod_eq_of_lt (by omega)]

/-- A row whose elements are inside of the input is printed. -/
theorem printRow_follows (known : primitiveOf digest typeId = some type)
    {element : Nat → List UInt8}
    (places : ∀ col < cols.toInt.toNat, ∃ address,
      elementAddress sizeT source type.size rows (Int32.ofNat row) (Int32.ofNat col) = address ∧
        input.start ≤ address ∧ address + type.size ≤ input.start + input.size ∧
        load input.image address type.size = element col) :
    FollowsText window number (printRow sizeT digest formats input typeId source rows cols row)
      position ([91] ++ separator.intercalate ((List.range cols.toInt.toNat).map fun col =>
        valueText formats type (element col)) ++ [93]) 0 .left := by
  have items : FollowAll window number position
      ((List.range cols.toInt.toNat).map fun col =>
        printMatrixElement digest formats input typeId type.size
          (elementAddress sizeT source type.size rows (.ofNat row) (.ofNat col)))
      ((List.range cols.toInt.toNat).map fun col => valueText formats type (element col)) 0
      .left := by
    apply followAll_map
    intro col inside
    obtain ⟨address, place, low, high, loaded⟩ := places col (mem_range.mp inside)
    rw [place, ← loaded]
    exact printMatrixElement_follows known low high
  have row := (((items.each separator_ne_nil true).1.behind [91]).andPut
    (cons_ne_nil 93 [])).text
  rw [separated_eq] at row
  rw [printRow, sizeof_of_primitiveOf known]
  exact row

/-- A matrix that was serialized is printed row by row. -/
theorem printRows_follows (known : primitiveOf digest typeId = some type)
    {memory host serialized : Image} {output : Nat}
    (done : serializeMatrix typeId memory output host source rows cols = some serialized)
    (addressable : output + (rows.toInt * cols.toInt).toNat * type.size < sizeT.modulus) :
    FollowsExactly window number
      (printRows sizeT digest formats
        ⟨serialized, output, (rows.toInt * cols.toInt).toNat * type.size⟩ typeId output rows cols)
      position (matrixText formats type rows.toInt.toNat cols.toInt.toNat (fun row col =>
        (load host (source + (row + col * rows.toInt.toNat) * type.size) type.size).reverse) ++ [0])
      0 .left := by
  obtain ⟨⟨-, small⟩, holds⟩ := serializeMatrix_holds known done
  have items : FollowAll window number position
      ((List.range rows.toInt.toNat).map (printRow sizeT digest formats
        ⟨serialized, output, (rows.toInt * cols.toInt).toNat * type.size⟩ typeId output rows cols))
      ((List.range rows.toInt.toNat).map fun row =>
        [91] ++ separator.intercalate ((List.range cols.toInt.toNat).map fun col =>
          valueText formats type
            (load host (source + (row + col * rows.toInt.toNat) * type.size) type.size).reverse) ++
          [93]) 0 .left := by
    apply followAll_map
    intro row rowInside
    apply printRow_follows known
    intro col colInside
    obtain ⟨place, inside⟩ :=
      elementAddress_eq (mem_range.mp rowInside) colInside small addressable
    have room : (row + col * rows.toInt.toNat) * type.size + type.size ≤
        (rows.toInt * cols.toInt).toNat * type.size := by
      rw [← Nat.succ_mul]
      exact Nat.mul_le_mul_right _ inside
    have element := holds _ inside
    rw [Holds, length_reverse, length_load] at element
    exact ⟨_, place, Nat.le_add_right _ _, by dsimp only; omega, element⟩
  have matrix := ((items.each separator_ne_nil true).1.behind [91]).andPut
    (cons_ne_nil 93 [0])
  rwa [separated_eq, show ([93, 0] : List UInt8) = [93] ++ [0] from rfl,
    ← append_assoc] at matrix

end Elements

end Miranda.Printing
