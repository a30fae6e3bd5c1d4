import Mathlib.Data.List.ReduceOption
import Mathlib.Data.List.TakeWhile
import Miranda.Dashboard.SensorReader

/-!
# Lines of the serial port

Each result of `read` is a byte, or none for an error or an empty read. `Serial::Read` stores bytes
up to a carriage return without a limit, and `Serial::Write` stores one more than it allocates.
-/

namespace Miranda.Dashboard.Serial

/-- The loop of `Serial::Read`. It stores the line and a zero, and waits at the end. -/
def readInto : List (Option Char) → Option (Text × List (Option Char))
  | [] => none
  | none :: later => readInto later
  | some char :: later =>
    if char = '\r' then some ([], later)
    else (readInto later).map fun (line, rest) => (char :: line, rest)

def reads : Nat → List (Option Char) → Option (List Text)
  | 0, _ => some []
  | count + 1, results =>
    (readInto results).bind fun (line, later) => (reads count later).map (line :: ·)

/-- What `Serial::Write` allocates, and what it has stored from there on. -/
def allocated (command : Text) : Nat := command.length + 1

def write (command : Text) : Text :=
  (command ++ ['\x00']).set command.length '\r' ++ ['\x00']

/-- The lines of the stream; the last one is not complete. -/
def lines (results : List (Option Char)) : List Text := results.reduceOption.splitOn '\r'

/-- The strings read are the lines, and nothing is stored outside of buffers of 500 bytes. -/
def Framed (buffer : Text) (count : Nat) (results : List (Option Char)) : Prop :=
  ∃ stored, reads count results = some stored ∧
    stored.map (fun line => cString (put buffer line) 0) = (lines results).take count ∧
    ∀ line ∈ stored, line.length + 1 ≤ 500

theorem lines_some (char : Char) (later : List (Option Char)) :
    lines (some char :: later) =
      if char = '\r' then [] :: lines later else (lines later).modifyHead (char :: ·) := by
  rw [lines, List.reduceOption_cons_of_some, List.splitOn, List.splitOnP_cons_eq_if_modifyHead]
  simp only [beq_iff_eq]
  rfl

theorem readInto_line (results : List (Option Char)) (enough : 1 < (lines results).length) :
    ∃ line later, readInto results = some (line, later) ∧ lines results = line :: lines later := by
  induction results with
  | nil => exact absurd enough (by decide)
  | cons result later ih =>
    cases result with
    | none => exact ih enough
    | some char =>
      rw [lines_some] at enough ⊢
      rw [readInto]
      split at enough
      · next ends => exact ⟨[], later, by simp [ends], by simp [ends]⟩
      · next other =>
        rw [List.length_modifyHead] at enough
        obtain ⟨line, rest, read, front⟩ := ih enough
        exact ⟨char :: line, rest, by simp [other, read], by simp [other, front]⟩

variable (count : Nat) (results : List (Option Char))

theorem reads_lines (enough : count < (lines results).length) :
    reads count results = some ((lines results).take count) := by
  induction count generalizing results with
  | zero => rfl
  | succ count ih =>
    obtain ⟨line, later, read, front⟩ := readInto_line results (by omega)
    rw [front, List.length_cons] at enough
    rw [reads, read, front]
    simp only [Option.bind_some, ih later (by omega)]
    rfl

theorem cString_put_iff (buffer text : Text) :
    cString (put buffer text) 0 = text ↔ '\x00' ∉ text := by
  constructor
  · intro same member
    rw [← same] at member
    simpa using List.mem_takeWhile_imp member
  · intro ends
    exact cString_put ends (Nat.zero_le _)

/-- Reads are right exactly if all lines are short and have no zero inside. `Write` sends the right
characters and leaves its block for every command.

Proof: reading takes line after line (`reads_lines`), and a stored line is the string up to
its first zero (`cString_put_iff`). -/
theorem serial_framing_iff (enough : count < (lines results).length) (buffer : Text) :
    (Framed buffer count results ↔
      ∀ line ∈ (lines results).take count, '\x00' ∉ line ∧ line.length < 500) ∧
    ∀ command, '\x00' ∉ command → cString (write command) 0 = command ++ ['\r'] ∧
      allocated command < (write command).length := by
  constructor
  · have strings : ((lines results).take count).map (fun line => cString (put buffer line) 0) =
        (lines results).take count ↔ ∀ line ∈ (lines results).take count, '\x00' ∉ line := by
      simp only [← cString_put_iff buffer]
      nth_rewrite 2 [← List.map_id ((lines results).take count)]
      exact List.map_inj_left
    simp only [Framed, reads_lines count results enough, Option.some.injEq, exists_eq_left', strings,
      forall₂_and, Nat.lt_iff_add_one_le]
  · intro command ends
    have stored : write command = put [] (command ++ ['\r']) := by simp [write, put]
    rw [stored, cString_put_iff]
    simp [ends, put, allocated]

theorem serial_framing_two_lines : Framed [] 2 [some '4', none, some '\r', some '\r'] :=
  (serial_framing_iff 2 _ (by decide) []).1.mpr (by decide)

/-- A line of 500 characters takes 501 bytes, and `atz` five in a block of four. -/
theorem serial_framing_overflow :
    ¬ Framed [] 1 (List.replicate 500 (some '0') ++ [some '\r']) ∧
      allocated "atz".toList = 4 ∧ (write "atz".toList).length = 5 := by
  refine ⟨?_, rfl, rfl⟩
  rintro ⟨stored, read, -, inside⟩
  have long : reads 1 (.replicate 500 (some '0') ++ [some '\r']) =
      some [.replicate 500 '0'] := by decide +kernel
  cases read.symm.trans long
  exact absurd (inside _ List.mem_cons_self) (by decide +kernel)

end Miranda.Dashboard.Serial
