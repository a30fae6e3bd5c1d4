import Miranda.Printing.Shapes

/-!
# Printing from too little input

A message may be shorter than its type says, for instance in a log that was written by
another version of the program. Every value is read after a check that its bytes are there, but
the bytes of the parent class are skipped without one. If there are fewer of them the number of
bytes that are left wraps around, the checks behind that pass, and the call reads what is behind
the input or leaves a number that is larger than before.

So printing is careful exactly if its walk over the input never has to skip more than is left:
because there is enough, or because a value in front of that is already missing.

An input is smaller than the address space by more than the largest parent class.
-/

namespace Miranda.Printing

open Bytes Printers QCompiler
open LogFile (SizeT)
open QueueTypes (TypeId MessageType)

/-- A call reads inside of its input, returns true only if the message is all there, and
does not count up. -/
def Careful (size : Nat) (cursor : Cursor) : Outcome → Prop
  | .returned after => size ≤ cursor.inputBytes ∧ after.inputBytes ≤ cursor.inputBytes
  | .failed after => after.inputBytes ≤ cursor.inputBytes
  | .outside => False
  | .died => False

/-- A printer that follows a walk is careful where the walk never skips too much. -/
theorem careful_of_follows {input : Window} {printer : Cursor → Outcome} {text : List UInt8}
    {need size : Nat} {walk : Nat → Walk} {cursor : Cursor}
    (follows : Follows input printer cursor.input need size (Printed text size) walk)
    (inside : Inside input cursor) (walks : walk cursor.inputBytes ≠ .overrun) :
    Careful size cursor (printer cursor) := by
  cases ends : walk _ with
  | overrun => exact absurd ends walks
  | short =>
    obtain ⟨after, failed, stopped⟩ := follows.short rfl inside ends
    rw [failed]
    exact stopped.inputBytes
  | left rest =>
    have count := follows.counts.mp ends
    by_cases room : need ≤ cursor.outputBytes
    · obtain ⟨after, returned, printed⟩ := follows.returns rfl inside ends room
      rw [returned]
      exact ⟨by omega, .intro printed.inputBytes⟩
    · obtain ⟨after, failed, stopped⟩ := follows.fails rfl inside ends (Nat.not_le.mp room)
      rw [failed]
      exact stopped.inputBytes

/-- **Printing is careful with its input exactly if it never has to skip more bytes than are
left.**

Proof: printing follows its walk over the input, and a walk that overruns leaves a number
that has wrapped around. -/
theorem printing_careful_iff (sizeT : SizeT) (digest : List Char → BitVec 16) (formats : Formats)
    (get : TypeId → Option MessageType) (input : Window) (type : MessageType) (shape : Shape)
    (fuel : Nat) (resolves : Resolves digest get type.fields shape) (deep : shape.depth < fuel)
    (addressable : input.start + input.size < sizeT.modulus)
    (small : input.size + 2 ^ 16 < sizeT.modulus) :
    (∀ memory output outputBytes,
      Careful (messageSize type shape) ⟨memory, output, outputBytes, input.start, input.size⟩
        (printMessage sizeT digest formats get input fuel type
          ⟨memory, output, outputBytes, input.start, input.size⟩)) ↔
      messageWalk type shape input.size ≠ .overrun := by
  have exact : FollowsExactly input (sizeT.modulus - 2 ^ 16)
      (printMessage sizeT digest formats get input fuel type) input.start
      _ _
      _ :=
    printMessage_follows addressable (by omega) resolves deep _
  have inside : ∀ memory output outputBytes,
      Inside input ⟨memory, output, outputBytes, input.start, input.size⟩ :=
    fun _ _ _ => ⟨Nat.le_refl _, Nat.le_refl _⟩
  constructor
  · intro careful overrun
    obtain ⟨room, -, behaves⟩ := exact.overruns _ overrun
    obtain ⟨after, failed, large⟩ :=
      behaves _ rfl rfl (inside _ _ _) rfl
    have bounded := careful blank 0 room
    rw [failed] at bounded
    have less : after.inputBytes ≤ input.size := bounded
    omega
  · intro walks memory output outputBytes
    exact careful_of_follows exact.follows (inside memory output outputBytes) walks

/-- With all bytes of the message there is nothing to skip that is not there. -/
theorem printing_careful_iff_whole :
    messageWalk sampleType sampleShape 9 ≠ .overrun ∧ ∀ memory output outputBytes,
      Careful 9 ⟨memory, output, outputBytes, 16, 9⟩
        (printMessage .bits64 sumDigest noFormats (fun _ => none) ⟨blank, 16, 9⟩ 1 sampleType
          ⟨memory, output, outputBytes, 16, 9⟩) :=
  ⟨by decide, (printing_careful_iff .bits64 sumDigest noFormats _ _ sampleType
    sampleShape 1 sampleType_resolves (by decide) (by decide) (by decide)).mpr (by decide)⟩

/-- Of four bytes eight are skipped, and then a value is read behind the input. -/
theorem printing_reads_outside :
    printMessage .bits64 sumDigest noFormats (fun _ => none) ⟨blank, 16, 4⟩ 1 sampleType
        ⟨blank, 0, 100, 16, 4⟩ = .outside ∧
      ¬ Careful 9 ⟨blank, 0, 100, 16, 4⟩
        (printMessage .bits64 sumDigest noFormats (fun _ => none) ⟨blank, 16, 4⟩ 1 sampleType
          ⟨blank, 0, 100, 16, 4⟩) :=
  ⟨rfl, id⟩

end Miranda.Printing
