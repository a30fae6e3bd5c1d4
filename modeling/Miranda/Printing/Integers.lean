import Mathlib.Data.Nat.Digits.Defs
import Miranda.Lib.InPlace
import Miranda.Lib.Printers
import Miranda.Lib.Signed

/-!
# Printing integers

`PrintInteger` writes the digits of an integer with the last one first, a minus sign behind
them if the integer is negative, and then reverses what it has written. It compares with the
room before every byte, so it needs no room for a zero byte at the end.

A negative integer is not negated first: its digits are the remainders by ten, which are
negative. Quotients and remainders are those of the C++ types and stay in range, so they are
taken of the value of the integer.
-/

namespace Miranda.Printing

open Bytes Printers List

/-- One of the loops over the digits, with what it leaves in the memory and in `len`. It
gives up where there is no room. -/
def digitLoop (digit : Int → UInt8) (buf output : Nat) (val : Int) (memory : Image) (len : Nat) :
    Bool × Image × Nat :=
  if len = output then (false, memory, len)
  else
    let memory := store memory (buf + len) [digit val]
    if val.tdiv 10 = 0 then (true, memory, len + 1)
    else digitLoop digit buf output (val.tdiv 10) memory (len + 1)
termination_by val.natAbs
decreasing_by
  have smaller : (val.tdiv 10).natAbs = val.natAbs / 10 := Int.natAbs_tdiv val 10
  omega

/-- The value of an integer of a signed or an unsigned type. -/
def integerValue {bits : Nat} (signed : Bool) (word : BitVec bits) : Int :=
  if signed then word.toInt else word.toNat

/-- `PrintInteger`. -/
def printInteger {bits : Nat} (signed : Bool) (word : BitVec bits) (cursor : Cursor) : Outcome :=
  let isNegative := signed && word.msb
  let val := integerValue signed word
  if isNegative then
    match digitLoop (fun val => UInt8.ofNat (48 - val.tmod 10).toNat) cursor.output
        cursor.outputBytes val cursor.memory 0 with
    | (false, memory, _) => .failed { cursor with memory := memory }
    | (true, memory, len) =>
      if len = cursor.outputBytes then .failed { cursor with memory := memory }
      else .returned { cursor with
        memory := reverseInPlace cursor.output (len + 1) (store memory (cursor.output + len) [45])
        outputBytes := cursor.outputBytes - (len + 1) }
  else
    match digitLoop (fun val => UInt8.ofNat (48 + val.tmod 10).toNat) cursor.output
        cursor.outputBytes val cursor.memory 0 with
    | (false, memory, _) => .failed { cursor with memory := memory }
    | (true, memory, len) => .returned { cursor with
        memory := reverseInPlace cursor.output len memory
        outputBytes := cursor.outputBytes - len }

/-- The decimal digits of a number. -/
def decimalDigits (number : Nat) : List UInt8 := (Nat.toDigits 10 number).map Char.toUInt8

/-- The decimal text of an integer. -/
def decimal (val : Int) : List UInt8 :=
  (if val < 0 then [45] else []) ++ decimalDigits val.natAbs

/-- The last digit comes off. -/
theorem reverse_decimalDigits (number : Nat) :
    (decimalDigits number).reverse =
      UInt8.ofNat (48 + number % 10) ::
        if number / 10 = 0 then [] else (decimalDigits (number / 10)).reverse := by
  have char : ∀ digit < 10, (Nat.digitChar digit).toUInt8 = .ofNat (48 + digit) := by
    decide
  by_cases small : number < 10
  · rw [decimalDigits, Nat.toDigits_of_lt_base small, if_pos (by omega), Nat.mod_eq_of_lt small]
    exact congrArg (· :: []) (char number small)
  · rw [decimalDigits, Nat.toDigits_of_base_le (by decide) (by omega), if_neg (by omega),
      map_append, reverse_append, map_singleton, char _ (Nat.mod_lt _ (by decide))]
    rfl

variable {sign : Int → Prop} {digit : Int → UInt8} {bits : Nat} {cursor : Cursor}
  {bytes : List UInt8}

/-- A loop writes the digits, last one first, as far as there is room. The loops are for
integers of one sign each, which a quotient keeps. -/
theorem digitLoop_eq (digits : ∀ val, sign val → digit val = UInt8.ofNat (48 + val.natAbs % 10))
    (keeps : ∀ val, sign val → sign (val.tdiv 10)) (buf output : Nat) (val : Int)
    (ofSign : sign val) (memory : Image) (len : Nat) (room : len ≤ output) :
    digitLoop digit buf output val memory len =
      let text := (decimalDigits val.natAbs).reverse
      if len + text.length ≤ output then (true, store memory (buf + len) text, len + text.length)
      else (false, store memory (buf + len) (text.take (output - len)), output) := by
  induction val, memory, len using digitLoop.induct digit buf output with
  | case1 val memory =>
    dsimp only
    rw [digitLoop, if_pos rfl, reverse_decimalDigits, length_cons, if_neg (by omega),
      Nat.sub_self, take_zero, store_nil]
  | case2 val memory len full done =>
    have quotient : (val.tdiv 10).natAbs = val.natAbs / 10 := Int.natAbs_tdiv val 10
    have last : val.natAbs / 10 = 0 := by omega
    rw [digitLoop, if_neg full, if_pos done, reverse_decimalDigits, if_pos last,
      digits val ofSign]
    rw [if_pos (by rw [length_singleton]; omega)]
    rfl
  | case3 val memory len full stored more ih =>
    have quotient : (val.tdiv 10).natAbs = val.natAbs / 10 := Int.natAbs_tdiv val 10
    have further : val.natAbs / 10 ≠ 0 := by omega
    have written : ∀ text, store _ (buf + (len + 1)) text =
        store memory _ (digit val :: text) :=
      store_store memory (buf + len) [digit val]
    rw [digitLoop, if_neg full, if_neg more, reverse_decimalDigits, if_neg further,
      ← digits val ofSign]
    have rest := ih (keeps val ofSign) (by omega)
    dsimp only [stored] at rest ⊢
    rw [rest, quotient, written, written, length_cons]
    by_cases fits : len + 1 + (decimalDigits (val.natAbs / 10)).reverse.length ≤ output
    · rw [if_pos fits, if_pos (by omega)]
      congr 2
      omega
    · rw [if_neg fits, if_neg (by omega),
        show output - len = output - (len + 1) + 1 by omega, take_succ_cons]

theorem digitLoop_start (digits : ∀ val, sign val → digit val = UInt8.ofNat (48 + val.natAbs % 10))
    (keeps : ∀ val, sign val → sign (val.tdiv 10)) (buf output : Nat) {val : Int}
    (ofSign : sign val) (memory : Image) :
    digitLoop digit buf output val memory 0 =
      let text := (decimalDigits val.natAbs).reverse
      if text.length ≤ output then (true, store memory buf text, text.length)
      else (false, store memory buf (text.take output), output) := by
  have loop := digitLoop_eq digits keeps buf output val ofSign memory 0 (Nat.zero_le _)
  simpa only [Nat.zero_add, Nat.add_zero, Nat.sub_zero] using loop

section Signs

variable (val : Int)

theorem digit_of_nonpos (nonpos : val ≤ 0) :
    UInt8.ofNat (48 - val.tmod 10).toNat = UInt8.ofNat (48 + val.natAbs % 10) := by
  obtain ⟨parts, small, -, sign⟩ := Signed.tdiv_parts val (show (10 : Int) ≠ 0 by decide)
  have remainder := sign nonpos
  congr 1
  omega

theorem digit_of_nonneg (nonneg : 0 ≤ val) :
    UInt8.ofNat (48 + val.tmod 10).toNat = UInt8.ofNat (48 + val.natAbs % 10) := by
  obtain ⟨parts, small, sign, -⟩ := Signed.tdiv_parts val (show (10 : Int) ≠ 0 by decide)
  have remainder := sign nonneg
  congr 1
  omega

theorem quotient_nonpos (nonpos : val ≤ 0) : val.tdiv 10 ≤ 0 := by
  obtain ⟨parts, small, -⟩ := Signed.tdiv_parts val (show (10 : Int) ≠ 0 by decide)
  omega

theorem quotient_nonneg (nonneg : 0 ≤ val) : 0 ≤ val.tdiv 10 :=
  Int.tdiv_nonneg nonneg (by decide)

end Signs

theorem isNegative_eq (signed : Bool) (word : BitVec bits) :
    (signed && word.msb) = decide (integerValue signed word < 0) := by
  cases signed with
  | false => simp [integerValue]
  | true => simp [integerValue, BitVec.msb_eq_toInt]

/-- What the loops have written is the text once it is reversed. -/
theorem counted_reversed {text : List UInt8} (reversed : bytes.reverse = text)
    (room : text.length ≤ cursor.outputBytes) :
    Counted text 0 cursor { cursor with
      memory := reverseInPlace cursor.output bytes.length (store cursor.memory cursor.output bytes)
      outputBytes := cursor.outputBytes - bytes.length } := by
  subst reversed
  rw [length_reverse] at room
  refine ⟨holds_reverseInPlace (holds_store _ _ _), ?_, ?_, rfl⟩
  · intro place outside
    exact (reverseInPlace_outside (by omega)).trans (store_outside (by omega))
  · rw [length_reverse]
    exact Nat.sub_add_cancel room

theorem stopped_store (fits : bytes.length ≤ cursor.outputBytes) :
    Stopped cursor { cursor with memory := store cursor.memory cursor.output bytes } :=
  ⟨sameOutside_store fits, Nat.le_refl _⟩

section Signed

variable {bits : Nat} {signed : Bool} {word : BitVec bits}

/-- The minus sign is checked for once the digits have found their room. -/
theorem printInteger_of_neg (negative : integerValue signed word < 0) :
    Writes (printInteger signed word) (decimal (integerValue signed word)).length
      (decimal (integerValue signed word)) := by
  have sign := isNegative_eq signed word
  generalize value : integerValue signed word = val at sign negative
  generalize digits : (decimalDigits _).reverse = text
  have loop := fun cursor : Cursor => digitLoop_start digit_of_nonpos quotient_nonpos
    cursor.output cursor.outputBytes (Int.le_of_lt negative) cursor.memory
  have reversed : (text ++ [45]).reverse = decimal val := by
    rw [decimal, if_pos negative, reverse_append, ← digits, reverse_reverse]
    rfl
  have length : (text ++ [45]).length = (decimal val).length := by
    rw [← reversed, length_reverse]
  have longer : (text ++ [45]).length = text.length + 1 := by
    rw [length_append, length_singleton]
  simp only [digits] at loop
  constructor
  · intro cursor room
    have counted := counted_reversed reversed room
    rw [longer, ← store_store] at counted
    refine ⟨_, ?_, counted⟩
    simp only [printInteger, sign, negative, decide_true, if_true, value, loop cursor]
    rw [if_pos (by omega)]
    dsimp only
    rw [if_neg (by omega)]
  · intro cursor room
    by_cases exact : text.length = cursor.outputBytes
    · refine ⟨_, ?_, stopped_store (Nat.le_of_eq exact)⟩
      simp only [printInteger, sign, negative, decide_true, if_true, value, loop cursor]
      rw [if_pos (by omega)]
      dsimp only
      rw [if_pos exact]
    · refine ⟨_, ?_, stopped_store (length_take_le _ text)⟩
      simp only [printInteger, sign, negative, decide_true, if_true, value, loop cursor]
      rw [if_neg (by omega)]

theorem printInteger_of_nonneg (nonneg : ¬ integerValue signed word < 0) :
    Writes (printInteger signed word) (decimal (integerValue signed word)).length
      (decimal (integerValue signed word)) := by
  have sign := isNegative_eq signed word
  generalize value : integerValue signed word = val at sign nonneg
  generalize digits : (decimalDigits val.natAbs).reverse = text
  have loop := fun cursor : Cursor => digitLoop_start digit_of_nonneg quotient_nonneg
    cursor.output cursor.outputBytes (Int.not_lt.mp nonneg) cursor.memory
  have reversed : text.reverse = decimal val := by
    rw [decimal, if_neg nonneg, ← digits, reverse_reverse]
    rfl
  have length : text.length = (decimal val).length := by
    rw [← reversed, length_reverse]
  simp only [digits] at loop
  constructor
  · intro cursor room
    refine ⟨_, ?_, counted_reversed reversed room⟩
    simp only [printInteger, sign, nonneg, decide_false, Bool.false_eq_true, if_false, value,
      loop cursor]
    rw [if_pos (by omega)]
  · intro cursor room
    refine ⟨_, ?_, stopped_store (length_take_le _ text)⟩
    simp only [printInteger, sign, nonneg, decide_false, Bool.false_eq_true, if_false, value,
      loop cursor]
    rw [if_neg (by omega)]

/-- `*output` is stored only at the end. -/
theorem printInteger_failed {after : Cursor}
    (failed : printInteger signed word cursor = .failed after) :
    after.outputBytes = cursor.outputBytes := by
  unfold printInteger at failed
  dsimp only at failed
  split at failed
  · split at failed
    · cases failed
      rfl
    · split at failed
      · cases failed
        rfl
      · cases failed
  · split at failed
    · cases failed
      rfl
    · cases failed

end Signed

/-- `PrintInteger` writes the decimal text of its value, if there is room for it. -/
theorem printInteger_writes (signed : Bool) (word : BitVec bits) :
    Writes (printInteger signed word) (decimal (integerValue signed word)).length
      (decimal (integerValue signed word)) := by
  by_cases negative : integerValue signed word < 0
  · exact printInteger_of_neg negative
  · exact printInteger_of_nonneg negative

/-- For every width `PrintInteger` returns true exactly if the numeral fits, with the numeral in the
buffer and its length taken off `*output`, and it writes inside of the room only.

Proof: by induction on the digits, the last one first (`printInteger_writes`). -/
theorem print_integer_exact (signed : Bool) (word : BitVec bits) (cursor : Cursor) :
    let text := decimal (integerValue signed word)
    ∃ after, SameOutside cursor.memory after.memory cursor.output cursor.outputBytes ∧
      if text.length ≤ cursor.outputBytes then
        printInteger signed word cursor = .returned after ∧ Holds after.memory cursor.output text ∧
          after.outputBytes + text.length = cursor.outputBytes
      else
        printInteger signed word cursor = .failed after ∧
          after.outputBytes = cursor.outputBytes := by
  intro text
  have writes := printInteger_writes signed word
  split
  · next room =>
    obtain ⟨after, returned, counted⟩ := writes.returns room
    exact ⟨after, counted.same, returned, counted.holds, counted.outputBytes⟩
  · next short =>
    obtain ⟨after, failed, stopped⟩ := writes.fails (Nat.not_le.mp short)
    exact ⟨after, stopped.same, failed, printInteger_failed failed⟩

end Miranda.Printing
