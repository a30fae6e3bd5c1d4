import Miranda.Lib.Runs
import Miranda.Lib.Strings
import Miranda.LogFile.WriterLoop

/-!
# Corked log messages

`LOG_CORK` formats a piece of a message into a buffer of the thread, behind what is there
already, and `LOG_UNCORK` adds a last piece, logs the message and resets the buffer.

A piece is known by its formatted text, which is a string and has no zero byte. Addresses
are counted from the start of the buffer. `vsnprintf` writes what the C standard
specifies for every size: as much of the text as there is room for and a zero byte. Its
result is negative for a text whose length is no `int`, and then the process dies. What
the log implementation does with a message is left out.

Formatting keeps four bytes for the mark of a text that was cut. Behind a mark there is
one byte left, and the size of the room for the next piece wraps around.
-/

namespace Miranda.Logging

open Bytes Checked Runs List
open LogFile (SizeT logMessageLen)

/-- `continued`, which is "...\n". -/
def continued : List UInt8 := [46, 46, 46, 10]

/-- A formatted piece of a message. -/
structure Piece where
  text : List UInt8
  nonzero : 0 ∉ text
  deriving DecidableEq, Repr

/-- `ExecuteFormat`, with no result where it dies. -/
def executeFormat (sizeT : SizeT) (output outputSize : Nat) (text : List UInt8) :
    List Write × Option Nat :=
  let size := (outputSize + sizeT.modulus - continued.length) % sizeT.modulus
  let (writes, ret) := vsnprintf output size text
  if ret < 0 then (writes, none)
  else if size ≤ ret.toNat then
    let last := (output + size + sizeT.modulus - 1) % sizeT.modulus
    (writes ++ [⟨last, continued ++ [0]⟩], some (min ret.toNat size))
  else (writes, some (min ret.toNat size))

/-- `cork_data` of the context. -/
structure CorkData where
  message : Image
  lineMin : Int32
  lineMax : Int32
  function : Option String

def CorkData.reset (cork : CorkData) : CorkData where
  message := store cork.message 0 [0]
  lineMin := Int32.maxValue
  lineMax := -1
  function := none

/-- How a call ends. Where the buffer has no zero byte `strlen` reads outside of it. -/
inductive Ending (α : Type) where
  | returned (value : α)
  | died
  | unterminated

/-- What a call writes to the buffer, and how it ends. -/
structure Result (α : Type) where
  writes : List Write
  ending : Ending α

/-- `VCork` -/
def vCork (sizeT : SizeT) (line : Int32) (function : String) (piece : Piece)
    (cork : CorkData) : Result CorkData :=
  match strlen cork.message 0 logMessageLen with
  | none => ⟨[], .unterminated⟩
  | some messageLength =>
    if cork.function.getD function ≠ function then ⟨[], .died⟩
    else
      let formatted :=
        executeFormat sizeT messageLength (logMessageLen - messageLength) piece.text
      match formatted.2 with
      | none => ⟨formatted.1, .died⟩
      | some _ =>
        ⟨formatted.1, .returned
          { message := writeAll cork.message formatted.1
            lineMin := if line < cork.lineMin then line else cork.lineMin
            lineMax := if cork.lineMax < line then line else cork.lineMax
            function := some function }⟩

/-- The arguments of `log_do` for the format "%s: %d-%d: %s: %s". -/
structure Logged where
  level : UInt8
  file : String
  lineMin : Int32
  lineMax : Int32
  function : String
  message : List UInt8
  deriving DecidableEq, Repr

/-- `VUnCork`, with what it logs. -/
def vUnCork (sizeT : SizeT) (line : Int32) (function : String) (level : UInt8) (file : String)
    (piece : Piece) (cork : CorkData) : Result (Logged × CorkData) :=
  let corked := vCork sizeT line function piece cork
  match corked.ending with
  | .died => ⟨corked.writes, .died⟩
  | .unterminated => ⟨corked.writes, .unterminated⟩
  | .returned cork =>
    match readString cork.message 0 logMessageLen with
    | none => ⟨corked.writes, .unterminated⟩
    | some message =>
      ⟨corked.writes ++ [⟨0, [0]⟩],
        .returned (⟨level, file, cork.lineMin, cork.lineMax, function, message⟩, cork.reset)⟩

/-- A call of `LOG_CORK` or `LOG_UNCORK`. -/
structure CorkCall where
  line : Int32
  piece : Piece
  deriving DecidableEq, Repr

/-- `LOG_CORK` in a function. -/
def corks (sizeT : SizeT) (function : String) (cork : CorkData) (call : CorkCall)
    (next : CorkData) : Prop :=
  (vCork sizeT call.line function call.piece cork).ending = .returned next

/-- The pieces of some calls, one behind the other. -/
def joined (calls : List CorkCall) : List UInt8 := calls.flatMap fun call => call.piece.text

/-- A string is the whole text, or the text was cut and marked. -/
def IsTextOrCut (text string : List UInt8) : Prop :=
  string = text ∨ ∃ kept < text.length, string = text.take kept ++ continued

/-- A call writes inside of the buffer, reads inside of it, and what it returns is
right. -/
def Result.Sound {α : Type} (result : Result α) (right : α → Prop) : Prop :=
  (∀ write ∈ result.writes, write.Before logMessageLen) ∧
    match result.ending with
    | .returned value => right value
    | .died => True
    | .unterminated => False

/-- The buffer holds a string that is the text or the cut text. -/
def CorkData.Shows (text : List UInt8) (cork : CorkData) : Prop :=
  ∃ string, readString cork.message 0 logMessageLen = some string ∧ IsTextOrCut text string

/-- All calls of `LOG_CORK` up to the call of `LOG_UNCORK` stay inside of the buffer, and
after each of them the buffer, and in the end the log, has the pieces so far. -/
structure StaysInside (sizeT : SizeT) (function : String) (level : UInt8) (file : String)
    (start : CorkData) (calls : List CorkCall) (last : CorkCall) : Prop where
  cork : ∀ done call rest state, calls = done ++ call :: rest →
    Run (corks sizeT function) start done state →
      (vCork sizeT call.line function call.piece state).Sound
        (CorkData.Shows (joined (done ++ [call])))
  unCork : ∀ state, Run (corks sizeT function) start calls state →
    (vUnCork sizeT last.line function level file last.piece state).Sound fun result =>
      IsTextOrCut (joined (calls ++ [last])) result.1.message

/-- After the pieces have reached this length only empty ones follow, unless the process
died of a piece whose length is no `int`. -/
def NothingBehindCut (calls : List CorkCall) : Prop :=
  ∀ done call rest, calls = done ++ call :: rest →
    (∀ earlier ∈ done, earlier.piece.text.length ≤ intMax) →
      logMessageLen - continued.length ≤ (joined done).length → call.piece.text = []

section Formatting

variable {sizeT : SizeT} {output size : Nat} {text : List UInt8}

theorem modulus_large (sizeT : SizeT) : 2 * intMax < sizeT.modulus := by
  cases sizeT <;> decide

/-- The four bytes of the mark are taken from the room. -/
theorem room_eq (small : size ≤ intMax) :
    (size + continued.length + sizeT.modulus - continued.length) % sizeT.modulus = size := by
  have large := modulus_large sizeT
  rw [Nat.add_right_comm, Nat.add_sub_cancel, Nat.add_mod_right, Nat.mod_eq_of_lt (by omega)]

/-- The text and its zero byte fit into the room without the mark. -/
theorem executeFormat_fits (small : size ≤ intMax) (fits : text.length < size) :
    executeFormat sizeT output (size + continued.length) text =
      ([⟨output, text ++ [0]⟩], some text.length) := by
  have whole : text.take (size - 1) = text := take_of_length_le (by omega)
  rw [executeFormat, room_eq small, vsnprintf, if_neg (by omega), if_pos (by omega), whole]
  dsimp only
  rw [if_neg (by omega), if_neg (by omega), Int.toNat_natCast, Nat.min_eq_left (by omega)]

/-- A text that does not fit is cut, and the mark is put behind what is left of it. -/
theorem executeFormat_cuts (positive : 0 < size) (small : output + size ≤ intMax)
    (cut : size ≤ text.length) (int : text.length ≤ intMax) :
    executeFormat sizeT output (size + continued.length) text =
      ([⟨output, text.take (size - 1) ++ [0]⟩, ⟨output + (size - 1), continued ++ [0]⟩],
        some size) := by
  have large := modulus_large sizeT
  have last : (output + size + sizeT.modulus - 1) % sizeT.modulus = output + (size - 1) := by
    rw [show output + size + sizeT.modulus - 1 = output + (size - 1) + sizeT.modulus by omega,
      Nat.add_mod_right, Nat.mod_eq_of_lt (by omega)]
  rw [executeFormat, room_eq (by omega), vsnprintf, if_neg (by omega), if_pos int]
  dsimp only
  rw [Int.toNat_natCast, if_pos cut, last, Nat.min_eq_right cut]
  rfl

/-- A text whose length is no `int` is cut as well, and then the process dies. -/
theorem executeFormat_dies (positive : 0 < size) (small : size ≤ intMax)
    (long : intMax < text.length) :
    executeFormat sizeT output (size + continued.length) text =
      ([⟨output, text.take (size - 1) ++ [0]⟩], none) := by
  rw [executeFormat, room_eq small, vsnprintf, if_neg (by omega), if_neg (by omega)]
  rfl

/-- With one byte left the size of the room wraps around, and no text of an `int` length
is cut. -/
theorem executeFormat_wraps : executeFormat sizeT output 1 text =
    ([⟨output, text.take (sizeT.modulus - 4) ++ [0]⟩],
      if text.length ≤ intMax then some text.length else none) := by
  have large := modulus_large sizeT
  have many : 4 < intMax := by decide
  have room : (1 + sizeT.modulus - continued.length) % sizeT.modulus = sizeT.modulus - 3 := by
    rw [show 1 + sizeT.modulus - continued.length = sizeT.modulus - 3 by
      simp only [continued, length_cons, length_nil]; omega,
      Nat.mod_eq_of_lt (by omega)]
  rw [executeFormat, room, vsnprintf, if_neg (by omega), Nat.sub_sub]
  dsimp only
  by_cases int : text.length ≤ intMax
  · rw [if_pos int, if_neg (by omega), Int.toNat_natCast, if_neg (by omega), if_pos int,
      Nat.min_eq_left (by omega)]
  · rw [if_neg int, if_neg int]
    rfl

end Formatting

/-- What is in the buffer for a text: all of it, or the cut text. -/
def buffered (text : List UInt8) : List UInt8 :=
  if text.length < logMessageLen - continued.length then text
  else text.take (logMessageLen - continued.length - 1) ++ continued

variable {text : List UInt8}

theorem buffered_of_lt (short : text.length < logMessageLen - continued.length) :
    buffered text = text :=
  if_pos short

theorem buffered_of_le (long : logMessageLen - continued.length ≤ text.length) :
    buffered text = text.take (logMessageLen - continued.length - 1) ++ continued :=
  if_neg (Nat.not_lt.mpr long)

theorem length_buffered_of_le (long : logMessageLen - continued.length ≤ text.length) :
    (buffered text).length = logMessageLen - 1 := by
  have shorter : logMessageLen - continued.length - 1 ≤ text.length := by omega
  rw [buffered_of_le long, length_append, length_take, Nat.min_eq_left shorter]
  rfl

theorem length_buffered_lt (text : List UInt8) : (buffered text).length < logMessageLen := by
  by_cases short : text.length < logMessageLen - continued.length
  · rw [buffered_of_lt short]
    omega
  · rw [length_buffered_of_le (by omega)]
    decide

theorem zero_notMem_buffered (nonzero : 0 ∉ text) : 0 ∉ buffered text := by
  rw [buffered]
  split
  · exact nonzero
  · rw [mem_append, not_or]
    exact ⟨fun kept => nonzero (mem_of_mem_take kept), by decide⟩

theorem isTextOrCut_buffered (text : List UInt8) : IsTextOrCut text (buffered text) := by
  by_cases short : text.length < logMessageLen - continued.length
  · exact .inl (buffered_of_lt short)
  · have positive : 0 < logMessageLen - continued.length := by decide
    exact .inr ⟨_, by omega, buffered_of_le (by omega)⟩

/-- The buffer has a text from calls in one function. -/
structure Represents (function : String) (text : List UInt8) (cork : CorkData) : Prop where
  holds : Holds cork.message 0 (buffered text ++ [0])
  nonzero : 0 ∉ text
  sameFunction : cork.function.getD function = function

theorem Represents.reset (function : String) (cork : CorkData) :
    Represents function [] cork.reset where
  holds := holds_store _ 0 [0]
  nonzero := not_mem_nil
  sameFunction := rfl

section Steps

variable {sizeT : SizeT} {function : String} {text : List UInt8} {cork : CorkData}
  {line : Int32} {piece : Piece}

theorem Represents.readString_eq (represents : Represents function text cork) :
    readString cork.message 0 logMessageLen = some (buffered text) :=
  Bytes.readString_eq represents.holds (zero_notMem_buffered represents.nonzero)
    (length_buffered_lt text)

theorem Represents.shows (represents : Represents function text cork) : cork.Shows text :=
  ⟨_, represents.readString_eq, isTextOrCut_buffered text⟩

/-- What a call does that stays inside of the buffer: only a piece whose length is no `int`
keeps it from returning. -/
def Continues (function : String) (text : List UInt8) (piece : Piece)
    (result : Result CorkData) : Prop :=
  (∀ write ∈ result.writes, write.Before logMessageLen) ∧
    ((intMax < piece.text.length ∧ result.ending = .died) ∨
      piece.text.length ≤ intMax ∧
        ∃ next, result.ending = .returned next ∧ Represents function (text ++ piece.text) next)

section

variable (represents : Represents function text cork)
include represents

/-- A call formats the piece behind what is in the buffer. -/
theorem Represents.vCork_eq :
    vCork sizeT line function piece cork =
      let formatted := executeFormat sizeT (buffered text).length
        (logMessageLen - (buffered text).length) piece.text
      match formatted.2 with
      | none => ⟨formatted.1, .died⟩
      | some _ =>
        ⟨formatted.1, .returned
          { message := writeAll cork.message formatted.1
            lineMin := if line < cork.lineMin then line else cork.lineMin
            lineMax := if cork.lineMax < line then line else cork.lineMax
            function := some function }⟩ := by
  have found := strlen_eq represents.holds (zero_notMem_buffered represents.nonzero)
    (length_buffered_lt text)
  simp only [vCork, found, represents.sameFunction, ne_eq, not_true_eq_false, if_false]

theorem Represents.continues {writes : List Write} {length : Nat}
    (formatted : executeFormat sizeT (buffered text).length
      (logMessageLen - (buffered text).length) piece.text = (writes, some length))
    (inside : ∀ write ∈ writes, write.Before logMessageLen)
    (int : piece.text.length ≤ intMax)
    (holds : Holds (writeAll cork.message writes) 0 (buffered (text ++ piece.text) ++ [0])) :
    Continues function text piece (vCork sizeT line function piece cork) := by
  have nonzero : 0 ∉ text ++ piece.text := by
    rw [mem_append, not_or]
    exact ⟨represents.nonzero, piece.nonzero⟩
  rw [represents.vCork_eq, formatted]
  exact ⟨inside, .inr ⟨int, _, rfl, holds, nonzero, rfl⟩⟩

/-- The piece fits. -/
theorem Represents.fits (short : (text ++ piece.text).length < logMessageLen - continued.length) :
    Continues function text piece (vCork sizeT line function piece cork) := by
  have lengths : (text ++ piece.text).length = text.length + piece.text.length :=
    length_append
  have same : buffered text = text := buffered_of_lt (by omega)
  have room : logMessageLen - text.length =
      logMessageLen - continued.length - text.length + continued.length := by
    omega
  have small : logMessageLen ≤ intMax := by decide
  apply represents.continues
  · rw [same, room]
    exact executeFormat_fits (by omega) (by omega)
  · have mark : continued.length = 4 := rfl
    rw [forall_mem_singleton]
    show text.length + (piece.text ++ [0]).length ≤ logMessageLen
    rw [length_append, length_singleton]
    omega
  · omega
  · have front := (holds_append.mp represents.holds).1
    rw [same] at front
    have whole := holds_extended front (piece.text ++ [0])
    rwa [Nat.zero_add, ← append_assoc, ← buffered_of_lt short] at whole

/-- The piece is cut. -/
theorem Represents.cuts (short : text.length < logMessageLen - continued.length)
    (long : logMessageLen - continued.length ≤ (text ++ piece.text).length) :
    Continues function text piece (vCork sizeT line function piece cork) := by
  have lengths : (text ++ piece.text).length = text.length + piece.text.length :=
    length_append
  have same : buffered text = text := buffered_of_lt short
  have mark : continued.length = 4 := rfl
  have small : logMessageLen ≤ intMax := by decide
  obtain ⟨size, sized⟩ := Nat.exists_eq_add_of_lt short
  have room : logMessageLen - text.length = size + 1 + continued.length := by
    omega
  have place : text.length + size = logMessageLen - continued.length - 1 := by
    omega
  have first : Write.Before logMessageLen ⟨text.length, piece.text.take size ++ [0]⟩ := by
    show text.length + (piece.text.take size ++ [0]).length ≤ logMessageLen
    rw [length_append, length_take, length_singleton]
    omega
  by_cases int : piece.text.length ≤ intMax
  · apply represents.continues
    · rw [same, room]
      exact executeFormat_cuts (by omega) (by omega) (by omega) int
    · rw [forall_mem_cons, forall_mem_singleton]
      refine ⟨first, ?_⟩
      show text.length + size + 5 ≤ logMessageLen
      omega
    · exact int
    · have front := (holds_append.mp represents.holds).1
      rw [same] at front
      have middle := holds_extended front (piece.text.take size ++ [0])
      rw [← append_assoc] at middle
      have whole := holds_extended (holds_append.mp middle).1 (continued ++ [0])
      have kept : (piece.text.take size).length = size := length_take_of_le (by omega)
      have cut : buffered (text ++ piece.text) = text ++ piece.text.take size ++ continued := by
        rw [buffered_of_le long, ← place, take_length_add_append]
      rwa [Nat.zero_add, Nat.zero_add, length_append, kept, ← append_assoc, ← cut] at whole
  · rw [represents.vCork_eq, same, room, executeFormat_dies (by omega) (by omega) (by omega)]
    exact ⟨forall_mem_singleton.mpr first, .inl ⟨by omega, rfl⟩⟩

/-- Nothing is added to a text that was cut. -/
theorem Represents.keeps (long : logMessageLen - continued.length ≤ text.length)
    (empty : piece.text = []) :
    Continues function text piece (vCork sizeT line function piece cork) := by
  have length := length_buffered_of_le long
  apply represents.continues
  · rw [length, empty]
    exact executeFormat_wraps
  · rw [take_nil]
    decide
  · rw [empty]
    decide
  · rw [empty, append_nil, ← length, take_nil]
    have whole := holds_extended (holds_append.mp represents.holds).1 [0]
    rwa [Nat.zero_add] at whole

/-- A call stays inside of the buffer unless it adds to a text that was cut. -/
theorem Represents.step
    (allowed : logMessageLen - continued.length ≤ text.length → piece.text = []) :
    Continues function text piece (vCork sizeT line function piece cork) := by
  by_cases short : text.length < logMessageLen - continued.length
  · by_cases together : (text ++ piece.text).length < logMessageLen - continued.length
    · exact represents.fits together
    · exact represents.cuts short (by omega)
  · exact represents.keeps (by omega) (allowed (by omega))

/-- Adding to a text that was cut writes behind the buffer. -/
theorem Represents.leaves (long : logMessageLen - continued.length ≤ text.length)
    (more : piece.text ≠ []) :
    ∃ write ∈ (vCork sizeT line function piece cork).writes, ¬ write.Before logMessageLen := by
  have length := length_buffered_of_le long
  have writes : (vCork sizeT line function piece cork).writes =
      [⟨logMessageLen - 1, piece.text.take (sizeT.modulus - 4) ++ [0]⟩] := by
    rw [represents.vCork_eq, length, show logMessageLen - (logMessageLen - 1) = 1 from rfl,
      executeFormat_wraps]
    split <;> rfl
  refine ⟨_, by rw [writes]; exact mem_singleton_self _, ?_⟩
  have positive := length_pos_of_ne_nil more
  have large := modulus_large sizeT
  have many : 4 < intMax := by decide
  have some : 1 ≤ logMessageLen := by decide
  rw [Write.Before, length_append, length_take, length_singleton]
  simp only
  omega

end

theorem Continues.sound {result : Result CorkData}
    (continues : Continues function text piece result) :
    result.Sound (CorkData.Shows (text ++ piece.text)) := by
  obtain ⟨inside, ⟨-, ending⟩ | ⟨-, next, ending, represents⟩⟩ := continues
  · exact ⟨inside, by rw [ending]; trivial⟩
  · exact ⟨inside, by rw [ending]; exact represents.shows⟩

variable {file : String} {level : UInt8}

/-- The last call logs what it leaves in the buffer. -/
theorem Continues.unCork_sound
    (continues : Continues function text piece (vCork sizeT line function piece cork)) :
    (vUnCork sizeT line function level file piece cork).Sound fun result =>
      IsTextOrCut (text ++ piece.text) result.1.message := by
  obtain ⟨inside, ⟨-, ending⟩ | ⟨-, next, ending, represents⟩⟩ := continues
  · rw [vUnCork]
    simp only [ending]
    exact ⟨inside, trivial⟩
  · rw [vUnCork]
    simp only [ending, represents.readString_eq]
    refine ⟨?_, isTextOrCut_buffered _⟩
    rw [forall_mem_append]
    exact ⟨inside, by decide⟩

theorem mem_vUnCork_writes {write : Write}
    (written : write ∈ (vCork sizeT line function piece cork).writes) :
    write ∈ (vUnCork sizeT line function level file piece cork).writes := by
  rw [vUnCork]
  split
  · exact written
  · exact written
  · split
    · exact written
    · exact mem_append_left _ written

/-- A call whose writes are inside of the buffer adds nothing to a text that was cut. -/
theorem Represents.allowed (represents : Represents function text cork)
    (inside : ∀ write ∈ (vCork sizeT line function piece cork).writes,
      write.Before logMessageLen)
    (long : logMessageLen - continued.length ≤ text.length) : piece.text = [] := by
  apply Decidable.byContradiction
  intro more
  obtain ⟨write, written, outside⟩ := represents.leaves long more
  exact outside (inside write written)

end Steps

section Sequences

variable {sizeT : SizeT} {function : String} {level : UInt8} {file : String}
  {start state : CorkData} {calls done : List CorkCall} {last : CorkCall}

theorem joined_concat (calls : List CorkCall) (call : CorkCall) :
    joined (calls ++ [call]) = joined calls ++ call.piece.text := by
  simp [joined]

theorem NothingBehindCut.front {rest : List CorkCall}
    (nothing : NothingBehindCut (calls ++ rest)) : NothingBehindCut calls := by
  intro done call later split
  exact nothing done call _ (by rw [split, append_assoc, cons_append])

/-- Every state that is reached without adding to a cut text has the text of the pieces. -/
theorem represents_of_run (run : Run (corks sizeT function) start done state)
    (begins : Represents function [] start) (nothing : NothingBehindCut done) :
    Represents function (joined done) state ∧
      ∀ call ∈ done, call.piece.text.length ≤ intMax := by
  induction run with
  | nil => exact ⟨begins, nofun⟩
  | @snoc state next calls call _ taken ih =>
    obtain ⟨represents, ints⟩ := ih nothing.front
    have continues : Continues function _ _
        (vCork sizeT call.line function _ state) :=
      represents.step (nothing calls call [] rfl ints)
    obtain ⟨-, ⟨-, ending⟩ | ⟨int, next, ending, after⟩⟩ := continues
    · cases ending.symm.trans taken
    · cases ending.symm.trans taken
      rw [joined_concat]
      refine ⟨after, ?_⟩
      rw [forall_mem_append, forall_mem_singleton]
      exact ⟨ints, int⟩

/-- If all calls stay inside of the buffer then those before a piece whose length is no
`int` return. -/
theorem exists_run (stays : StaysInside sizeT function level file start calls last)
    (begins : Represents function [] start) {rest : List CorkCall} (split : calls = done ++ rest)
    (ints : ∀ call ∈ done, call.piece.text.length ≤ intMax) :
    ∃ state, Run (corks sizeT function) start done state ∧
      Represents function (joined done) state := by
  induction done using List.reverseRecOn generalizing rest with
  | nil => exact ⟨start, .nil start, begins⟩
  | append_singleton done call ih =>
    rw [append_assoc] at split
    rw [forall_mem_append, forall_mem_singleton] at ints
    obtain ⟨state, run, represents⟩ := ih split ints.1
    have sound := stays.cork done call rest state split run
    obtain ⟨-, ⟨long, -⟩ | ⟨-, next, ending, after⟩⟩ :=
      represents.step (represents.allowed sound.1)
    · omega
    · rw [joined_concat]
      exact ⟨next, run.snoc ending, after⟩

/-- **Corked messages stay inside of their buffer exactly if nothing is added to a text
that was cut.**

Proof: by induction on the calls the buffer represents what was formatted; behind a cut
the next piece is written outside (`Represents.allowed`). -/
theorem corks_stay_inside_iff (sizeT : SizeT) (function : String) (level : UInt8)
    (file : String) (before : CorkData) (calls : List CorkCall) (last : CorkCall) :
    StaysInside sizeT function level file before.reset calls last ↔
      NothingBehindCut (calls ++ [last]) := by
  have begins := Represents.reset function before
  constructor
  · intro stays done call rest split ints long
    rcases eq_nil_or_concat rest with rfl | ⟨middle, final, rfl⟩
    · obtain ⟨rfl, equal⟩ := append_inj' split rfl
      obtain ⟨state, run, represents⟩ :=
        exists_run stays begins (append_nil calls).symm ints
      cases equal
      have inside : ∀ write ∈ (vCork sizeT _ function _ state).writes,
          write.Before logMessageLen := fun write written =>
        (stays.unCork state run).1 write (mem_vUnCork_writes written)
      exact represents.allowed inside long
    · rw [concat_eq_append, ← cons_append, ← append_assoc] at split
      obtain ⟨rfl, -⟩ := append_inj' split rfl
      obtain ⟨state, run, represents⟩ := exists_run stays begins rfl ints
      exact represents.allowed (stays.cork done call middle state rfl run).1 long
  · intro nothing
    constructor
    · intro done call rest state split run
      subst split
      obtain ⟨represents, ints⟩ := represents_of_run run begins nothing.front.front
      rw [joined_concat]
      refine (represents.step (nothing done call (rest ++ [last]) ?_ ints)).sound
      rw [append_assoc, cons_append]
    · intro state run
      obtain ⟨represents, ints⟩ := represents_of_run run begins nothing.front
      rw [joined_concat]
      exact (represents.step (nothing calls last [] rfl ints)).unCork_sound

end Sequences

/-- A call with a number of times the letter a. -/
def letters (line : Int32) (count : Nat) : CorkCall where
  line := line
  piece := ⟨List.replicate count 97, fun zero => absurd (List.eq_of_mem_replicate zero) (by decide)⟩

/-- After four hundred letters have been cut, a single letter more leaves the buffer. -/
theorem corks_leave_buffer :
    ¬ StaysInside .bits64 "main" 1 "main.cc" (CorkData.reset ⟨blank, 0, 0, none⟩)
      [letters 1 400] (letters 2 1) := by
  intro stays
  have length : (joined [letters 1 400]).length = 400 := by
    rw [joined, flatMap_singleton]
    exact length_replicate
  have int : (letters 1 400).piece.text.length ≤ intMax := by
    rw [show (letters 1 400).piece.text.length = 400 from length_replicate]
    decide
  obtain ⟨state, run, represents⟩ := exists_run stays (.reset "main" _)
    (append_nil _).symm (forall_mem_singleton.mpr int)
  have inside : ∀ write ∈ (vCork .bits64 2 "main" _ state).writes,
      write.Before logMessageLen := fun write written =>
    (stays.unCork state run).1 write (mem_vUnCork_writes written)
  have long : logMessageLen - continued.length ≤ (joined [letters 1 400]).length := by
    rw [length]
    decide
  cases represents.allowed inside long

end Miranda.Logging
