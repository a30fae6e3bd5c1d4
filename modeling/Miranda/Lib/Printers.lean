import Mathlib.Data.List.Basic
import Miranda.Lib.Access

/-!
# Printers with a bounded output and a counted input

A printer reads bytes and writes text. It has a pointer and a counter for either side, and
a call either returns with both of them moved, or fails and leaves the counters and the
memory as they are at that point.

A printer follows a text if it returns exactly from some room on, which is the length of the
text or one byte more, and then has written the text; without that room it fails. In any case
it changes no byte outside of its room. Printers that follow texts one after the other follow
the texts joined.

How far the input goes is told by a walk over the number of bytes that are left: it comes to
an end, falls short where a printer checks the number, or overruns where it does not. Nothing
is said about a printer whose walk overruns, except that with the right room it fails just
behind that point.
-/

namespace Miranda.Printers

open Bytes List

/-- The memory that is written, and the pointers and counters of both sides. -/
structure Cursor where
  memory : Image
  output : Nat
  outputBytes : Nat
  input : Nat
  inputBytes : Nat

/-- How a call ends: true, false, with a read outside of the input, or not at all. -/
inductive Outcome where
  | returned (cursor : Cursor)
  | failed (cursor : Cursor)
  | outside
  | died

def Outcome.bind (outcome : Outcome) (next : Cursor → Outcome) : Outcome :=
  match outcome with
  | .returned cursor => next cursor
  | .failed cursor => .failed cursor
  | .outside => .outside
  | .died => .died

/-- Run one printer behind another. -/
def andThen (first second : Cursor → Outcome) (cursor : Cursor) : Outcome :=
  (first cursor).bind second

/-- Write a text if there is room for it. -/
def put (text : List UInt8) (cursor : Cursor) : Outcome :=
  if cursor.outputBytes < text.length then .failed cursor
  else .returned { cursor with
    memory := store cursor.memory cursor.output text
    output := cursor.output + text.length
    outputBytes := cursor.outputBytes - text.length }

/-- Call another printer with copies of the pointers, take back the trailing bytes it has
put on, and move the pointers by what the counters say. -/
def subcall (modulus : Nat) (trailing : List UInt8) (printer : Cursor → Outcome)
    (cursor : Cursor) : Outcome :=
  andThen printer (fun after => .returned
    { memory := after.memory
      output := cursor.output + cursor.outputBytes - (after.outputBytes + trailing.length)
      outputBytes := after.outputBytes + trailing.length
      input := (cursor.input + cursor.inputBytes + modulus - after.inputBytes) % modulus
      inputBytes := after.inputBytes }) cursor

/-- Move over bytes of the input without a check. -/
def skipInput (modulus size : Nat) (cursor : Cursor) : Outcome :=
  .returned { cursor with
    input := (cursor.input + size) % modulus
    inputBytes := (cursor.inputBytes + modulus - size) % modulus }

/-- Print items with a separator between them. -/
def each (separator : List UInt8) : Bool → List (Cursor → Outcome) → Cursor → Outcome
  | _, [], cursor => .returned cursor
  | first, item :: rest, cursor =>
    andThen (andThen (if first then .returned else put separator) item)
      (each separator false rest) cursor

/-- Texts with a separator between them. -/
def separated (separator : List UInt8) : Bool → List (List UInt8) → List UInt8
  | _, [] => []
  | first, text :: rest =>
    (if first then [] else separator) ++ text ++ separated separator false rest

theorem separated_eq (separator : List UInt8) (texts : List (List UInt8)) :
    separated separator true texts = separator.intercalate texts := by
  have later : ∀ (text : List UInt8) (rest : List _),
      text ++ separated separator false rest = separator.intercalate (text :: rest) := by
    intro text rest
    induction rest generalizing text with
    | nil => simp [separated]
    | cons next rest ih =>
      rw [intercalate_cons_cons, ← ih]
      simp [separated]
  cases texts with
  | nil => rfl
  | cons text rest =>
    rw [← later]
    rfl

/-- What a walk over the input makes of the number of bytes that are left. -/
inductive Walk where
  | left (bytes : Nat)
  | short
  | overrun
  deriving DecidableEq, Repr

namespace Walk

def bind (walk : Walk) (next : Nat → Walk) : Walk :=
  match walk with
  | .left bytes => next bytes
  | .short => .short
  | .overrun => .overrun

/-- Make one walk behind another. -/
def andThen (walk next : Nat → Walk) (bytes : Nat) : Walk := (walk bytes).bind next

/-- Bytes that are read after a check that they are there. -/
def take (size bytes : Nat) : Walk := if bytes < size then .short else .left (bytes - size)

/-- Bytes that are skipped without a check. -/
def skip (size bytes : Nat) : Walk := if bytes < size then .overrun else .left (bytes - size)

/-- The same walk a number of times. -/
def repeated (step : Nat → Walk) : Nat → Nat → Walk
  | 0, bytes => .left bytes
  | number + 1, bytes => andThen step (repeated step number) bytes

section Binding

variable {walk next : Nat → Walk} {bytes rest : Nat}

theorem andThen_eq_left : andThen walk next bytes = .left rest ↔
    ∃ middle, walk bytes = .left middle ∧ next middle = .left rest := by
  unfold andThen
  cases walk bytes <;> simp [bind]

theorem andThen_eq_short : andThen walk next bytes = .short ↔
    walk bytes = .short ∨ ∃ middle, walk bytes = .left middle ∧ next middle = .short := by
  unfold andThen
  cases walk bytes <;> simp [bind]

theorem andThen_eq_overrun : andThen walk next bytes = .overrun ↔
    walk bytes = .overrun ∨ ∃ middle, walk bytes = .left middle ∧ next middle = .overrun := by
  unfold andThen
  cases walk bytes <;> simp [bind]

theorem andThen_left (walk : Nat → Walk) : andThen walk .left = walk := by
  funext bytes
  unfold andThen
  cases walk bytes <;> rfl

variable {size : Nat}

theorem take_eq_left : take size bytes = .left rest ↔ rest + size = bytes := by
  unfold take
  split
  · simp only [reduceCtorEq, false_iff]
    omega
  · rw [left.injEq]
    omega

theorem take_eq_short : take size bytes = .short ↔ bytes < size := by
  unfold take
  split <;> simp_all

theorem take_ne_overrun : take size bytes ≠ .overrun := by
  unfold take
  split <;> nofun

theorem skip_eq_left : skip size bytes = .left rest ↔ rest + size = bytes := by
  unfold skip
  split
  · simp only [reduceCtorEq, false_iff]
    omega
  · rw [left.injEq]
    omega

theorem skip_eq_overrun : skip size bytes = .overrun ↔ bytes < size := by
  unfold skip
  split <;> simp_all

theorem skip_ne_short : skip size bytes ≠ .short := by
  unfold skip
  split <;> nofun

end Binding

end Walk

/-- The bytes outside of a range are the same. -/
def SameOutside (before after : Image) (address length : Nat) : Prop :=
  ∀ place, place < address ∨ address + length ≤ place → after place = before place

/-- The text is in the memory and both counters have gone down. -/
structure Counted (text : List UInt8) (size : Nat) (before after : Cursor) : Prop where
  holds : Holds after.memory before.output text
  same : SameOutside before.memory after.memory before.output before.outputBytes
  outputBytes : after.outputBytes + text.length = before.outputBytes
  inputBytes : after.inputBytes + size = before.inputBytes

/-- The pointers have gone on as well. -/
structure Printed (text : List UInt8) (size : Nat) (before after : Cursor) : Prop
    extends Counted text size before after where
  output : after.output = before.output + text.length
  input : after.input = before.input + size

/-- Where a printer stops it has written inside of its room only. -/
structure Stopped (before after : Cursor) : Prop where
  same : SameOutside before.memory after.memory before.output before.outputBytes
  inputBytes : after.inputBytes ≤ before.inputBytes

/-- What a printer does that reads no input. -/
structure Writes (printer : Cursor → Outcome) (need : Nat) (text : List UInt8) : Prop where
  returns : ∀ {cursor}, need ≤ cursor.outputBytes →
    ∃ after, printer cursor = .returned after ∧ Counted text 0 cursor after
  fails : ∀ {cursor}, cursor.outputBytes < need →
    ∃ after, printer cursor = .failed after ∧ Stopped cursor after

/-- The input that is counted is there. -/
def Inside (window : Window) (cursor : Cursor) : Prop :=
  window.start ≤ cursor.input ∧
    cursor.input + cursor.inputBytes ≤ window.start + window.size

/-- What a printer does at a position of the input, as long as its walk does not overrun. -/
structure Follows (window : Window) (printer : Cursor → Outcome) (position need size : Nat)
    (done : Cursor → Cursor → Prop) (walk : Nat → Walk) : Prop where
  counts : ∀ {bytes rest}, walk bytes = .left rest ↔ rest + size = bytes
  returns : ∀ {cursor rest}, cursor.input = position → Inside window cursor →
    walk cursor.inputBytes = .left rest → need ≤ cursor.outputBytes →
      ∃ after, printer cursor = .returned after ∧ done cursor after
  fails : ∀ {cursor rest}, cursor.input = position → Inside window cursor →
    walk cursor.inputBytes = .left rest → cursor.outputBytes < need →
      ∃ after, printer cursor = .failed after ∧ Stopped cursor after
  short : ∀ {cursor}, cursor.input = position → Inside window cursor →
    walk cursor.inputBytes = .short →
      ∃ after, printer cursor = .failed after ∧ Stopped cursor after

/-- Where the walk overruns there is a room, not below the least one, with which the printer
fails and leaves at least the given number as the bytes that are left. -/
def Overruns (window : Window) (printer : Cursor → Outcome) (position least number : Nat)
    (walk : Nat → Walk) : Prop :=
  ∀ bytes, walk bytes = .overrun → ∃ room, least ≤ room ∧
    ∀ cursor, cursor.input = position → cursor.inputBytes = bytes → Inside window cursor →
      cursor.outputBytes = room → ∃ after, printer cursor = .failed after ∧ number ≤ after.inputBytes

/-- A printer that needs no more room than for its text. -/
structure FollowsExactly (window : Window) (number : Nat) (printer : Cursor → Outcome)
    (position : Nat) (text : List UInt8) (size : Nat) (walk : Nat → Walk) : Prop where
  follows : Follows window printer position text.length size (Printed text size) walk
  overruns : Overruns window printer position 0 number walk

/-- A printer that needs room for its text, or for one byte more. -/
structure FollowsText (window : Window) (number : Nat) (printer : Cursor → Outcome)
    (position : Nat) (text : List UInt8) (size : Nat) (walk : Nat → Walk) : Prop where
  follows : ∃ need, text.length ≤ need ∧ need ≤ text.length + 1 ∧
    Follows window printer position need size (Printed text size) walk
  overruns : Overruns window printer position 0 number walk

section Composing

variable {window : Window} {first second : Cursor → Outcome}
  {position need more size further least number : Nat}
  {one two : List UInt8} {walk next : Nat → Walk}

variable {cursor middle after : Cursor} {address length : Nat} {before : Cursor}
  {modulus room skipped : Nat}

theorem andThen_returned (returned : first cursor = .returned middle) :
    andThen first second cursor = second middle := by
  rw [andThen, returned]
  rfl

/-- A printer that fails keeps the one behind it from starting. -/
theorem andThen_failed {holds : Cursor → Prop}
    (failed : ∃ after, first cursor = .failed after ∧ holds after) :
    ∃ after, andThen first second cursor = .failed after ∧ holds after := by
  obtain ⟨after, failed, held⟩ := failed
  refine ⟨after, ?_, held⟩
  rw [andThen, failed]
  rfl

theorem sameOutside_store {image : Image} {bytes : List UInt8} (fits : bytes.length ≤ length) :
    SameOutside image (store image address bytes) address length :=
  fun _ _ => store_outside (by omega)

theorem SameOutside.trans {start middle final : Image}
    (before : SameOutside start middle address length) {offset : Nat}
    (after : SameOutside middle final (address + offset) (length - offset))
    (inside : offset ≤ length) : SameOutside start final address length := by
  intro place outside
  rw [after place (by omega), before place outside]

/-- What comes later stays behind the text that is there. -/
theorem Printed.sameOutside (printed : Printed one size before middle) {after : Image}
    (same : SameOutside middle.memory after middle.output middle.outputBytes) :
    SameOutside middle.memory after (before.output + one.length)
      (before.outputBytes - one.length) := by
  have room := printed.outputBytes
  rwa [← printed.output, show before.outputBytes - one.length = middle.outputBytes by omega]

theorem Printed.append (start : Printed one size before middle)
    (following : Printed two further middle after) :
    Printed (one ++ two) (size + further) before after := by
  have room := start.outputBytes
  have rest := following.outputBytes
  have read := start.inputBytes
  have later := following.inputBytes
  have kept := start.sameOutside following.same
  refine ⟨⟨?_, start.same.trans kept (by omega), ?_, by omega⟩, ?_, ?_⟩
  · rw [holds_append]
    refine ⟨start.holds.congr ?_, ?_⟩
    · intro index inside
      exact kept _ (by omega)
    · rw [← start.output]
      exact following.holds
  · rw [length_append]
    omega
  · rw [following.output, start.output, length_append, Nat.add_assoc]
  · rw [following.input, start.input, Nat.add_assoc]

theorem Printed.stopped (start : Printed one size before middle) (stopped : Stopped middle after) :
    Stopped before after := by
  have room := start.outputBytes
  have read := start.inputBytes
  have less := stopped.inputBytes
  exact ⟨start.same.trans (start.sameOutside stopped.same) (by omega), by omega⟩

section

variable (start : Follows window first position need size (Printed one size) walk)
include start

/-- A printer that returns leaves a cursor for the next one. -/
theorem Follows.reaches {bytes : Nat} (place : cursor.input = position)
    (inside : Inside window cursor)
    (ends : walk cursor.inputBytes = .left bytes) (room : need ≤ cursor.outputBytes) :
    ∃ middle, first cursor = .returned middle ∧ Printed one size cursor middle ∧
      middle.input = position + size ∧ Inside window middle ∧ middle.inputBytes = bytes := by
  obtain ⟨middle, returned, printed⟩ := start.returns place inside ends room
  have left := start.counts.mp ends
  have counted := printed.inputBytes
  have input := printed.input
  obtain ⟨low, high⟩ := inside
  exact ⟨middle, returned, printed, by omega, ⟨by omega, by omega⟩, by omega⟩

/-- Printers run one after the other. -/
theorem Follows.andThen
    (following : Follows window second (position + size) more further (Printed two further) next) :
    Follows window (andThen first second) position (max need (one.length + more))
      (size + further) (Printed (one ++ two) (size + further)) (Walk.andThen walk next) where
  counts := by
    intro bytes rest
    rw [Walk.andThen_eq_left]
    constructor
    · rintro ⟨middle, begun, ended⟩
      have earlier := start.counts.mp begun
      have later := following.counts.mp ended
      omega
    · intro total
      exact ⟨rest + further, start.counts.mpr (by omega), following.counts.mpr rfl⟩
  returns := by
    intro cursor rest place inside ends room
    obtain ⟨bytes, begun, ended⟩ := Walk.andThen_eq_left.mp ends
    obtain ⟨middle, returned, printed, next, within, rfl⟩ :=
      start.reaches place inside begun (by omega)
    have written := printed.outputBytes
    obtain ⟨after, done, more⟩ := following.returns next within ended (by omega)
    exact ⟨after, (andThen_returned returned).trans done, printed.append more⟩
  fails := by
    intro cursor rest place inside ends room
    obtain ⟨bytes, begun, ended⟩ := Walk.andThen_eq_left.mp ends
    by_cases enough : need ≤ cursor.outputBytes
    · obtain ⟨middle, returned, printed, next, within, rfl⟩ :=
        start.reaches place inside begun enough
      have written := printed.outputBytes
      obtain ⟨after, failed, stopped⟩ := following.fails next within ended (by omega)
      exact ⟨after, (andThen_returned returned).trans failed, printed.stopped stopped⟩
    · exact andThen_failed (start.fails place inside begun (by omega))
  short := by
    intro cursor place inside ends
    rcases Walk.andThen_eq_short.mp ends with begun | ⟨bytes, begun, ended⟩
    · exact andThen_failed (start.short place inside begun)
    · by_cases enough : need ≤ cursor.outputBytes
      · obtain ⟨middle, returned, printed, next, within, rfl⟩ :=
          start.reaches place inside begun enough
        obtain ⟨after, failed, stopped⟩ := following.short next within ended
        exact ⟨after, (andThen_returned returned).trans failed, printed.stopped stopped⟩
      · exact andThen_failed (start.fails place inside begun (by omega))

/-- An overrun is reached with the room for the text in front of it. -/
theorem Overruns.andThen {low : Nat}
    (overruns : Overruns window first position low number walk)
    (following : Overruns window second (position + size) least number next)
    (enough : need ≤ one.length + least) (high : low ≤ one.length + least) :
    Overruns window (andThen first second) position low number (Walk.andThen walk next) := by
  intro bytes ends
  rcases Walk.andThen_eq_overrun.mp ends with begun | ⟨middle, begun, ended⟩
  · obtain ⟨room, enough, behaves⟩ := overruns bytes begun
    exact ⟨room, enough, fun cursor place count inside space =>
      andThen_failed (behaves cursor place count inside space)⟩
  · obtain ⟨room, bound, behaves⟩ := following middle ended
    refine ⟨one.length + room, by omega, ?_⟩
    intro cursor place count inside space
    subst count
    obtain ⟨reached, returned, printed, next, within, rfl⟩ :=
      start.reaches place inside begun (by omega)
    have written := printed.outputBytes
    obtain ⟨after, failed, large⟩ := behaves reached next rfl within (by omega)
    exact ⟨after, (andThen_returned returned).trans failed, large⟩

end

/-- A walk that always comes to an end does not overrun. -/
theorem overruns_left (window : Window) (printer : Cursor → Outcome) (position least number : Nat) :
    Overruns window printer position least number .left :=
  fun _ ends => nomatch ends

theorem FollowsExactly.text
    (exact : FollowsExactly window number first position one size walk) :
    FollowsText window number first position one size walk :=
  ⟨⟨one.length, Nat.le_refl _, Nat.le_succ _, exact.follows⟩, exact.overruns⟩

/-- Writing a text that is given. -/
theorem put_follows (window : Window) (number position : Nat) (text : List UInt8) :
    FollowsExactly window number (put text) position text 0 .left where
  follows := {
    counts := by
      intro bytes rest
      rw [Walk.left.injEq, Nat.add_zero, eq_comm]
    returns := by
      intro cursor _ _ _ _ room
      exact ⟨_, if_neg (Nat.not_lt.mpr room),
        ⟨holds_store _ _ _, sameOutside_store room, Nat.sub_add_cancel room, rfl⟩, rfl, rfl⟩
    fails := by
      intro cursor _ _ _ _ room
      exact ⟨cursor, if_pos room, fun _ _ => rfl, Nat.le_refl _⟩
    short := by
      intro cursor _ _ ends
      cases ends }
  overruns := overruns_left window _ position 0 number

/-- Nothing is printed. -/
theorem nothing_follows (window : Window) (number position : Nat) :
    FollowsExactly window number .returned position [] 0 .left := by
  have empty : put [] = .returned := by
    funext cursor
    simp [put, store_nil]
  rw [← empty]
  exact put_follows window number position []

/-- A printer behind one that needs no room but for its text. -/
theorem FollowsExactly.andThen (start : FollowsExactly window number first position one size walk)
    (following : FollowsText window number second (position + size) two further next) :
    FollowsText window number (andThen first second) position (one ++ two) (size + further)
      (Walk.andThen walk next) where
  follows := by
    obtain ⟨need, low, high, follows⟩ := following.follows
    refine ⟨_, ?_, ?_, start.follows.andThen follows⟩ <;> rw [length_append] <;> omega
  overruns := .andThen start.follows start.overruns following.overruns (Nat.le_refl _)
    (Nat.zero_le _)

/-- Text in front of a printer. -/
theorem FollowsText.behind (following : FollowsText window number second position two size walk)
    (text : List UInt8) :
    FollowsText window number (andThen (put text) second) position (text ++ two) size walk := by
  have whole := (put_follows window number position text).andThen following
  rwa [Nat.zero_add] at whole

/-- Text behind a printer: it makes up for the byte that the printer needs. -/
theorem FollowsText.andPut (start : FollowsText window number first position one size walk)
    {text : List UInt8} (some : text ≠ []) :
    FollowsExactly window number (andThen first (put text)) position (one ++ text) size
      walk where
  follows := by
    obtain ⟨need, low, high, follows⟩ := start.follows
    have positive := length_pos_of_ne_nil some
    have whole := follows.andThen (put_follows window number _ text).follows
    rwa [Nat.max_eq_right (by omega), ← length_append, Walk.andThen_left] at whole
  overruns := by
    obtain ⟨need, low, high, follows⟩ := start.follows
    have whole := Overruns.andThen follows start.overruns
      (overruns_left window (put text) _ 1 number) (by omega) (Nat.zero_le _)
    rwa [Walk.andThen_left] at whole

/-- A call of a printer that moves its own copies of the pointers. -/
theorem Follows.subcall {trailing : List UInt8}
    (follows : Follows window first position need size (Counted (one ++ trailing) size) walk)
    (addressable : window.start + window.size < modulus) :
    Follows window (subcall modulus trailing first) position need size (Printed one size) walk where
  counts := follows.counts
  returns := by
    intro cursor rest place inside ends room
    obtain ⟨after, returned, counted⟩ := follows.returns place inside ends room
    have written := counted.outputBytes
    have read := counted.inputBytes
    obtain ⟨low, high⟩ := inside
    rw [length_append] at written
    refine ⟨_, andThen_returned returned, ⟨?_, counted.same, ?_, read⟩, ?_, ?_⟩
    · exact (holds_append.mp counted.holds).1
    · dsimp only
      omega
    · dsimp only
      omega
    · dsimp only
      rw [show cursor.input + cursor.inputBytes + modulus - after.inputBytes =
        cursor.input + size + modulus by omega, Nat.add_mod_right, Nat.mod_eq_of_lt (by omega)]
  fails place inside ends room := andThen_failed (follows.fails place inside ends room)
  short place inside ends := andThen_failed (follows.short place inside ends)

theorem Overruns.subcall (overruns : Overruns window first position least number walk)
    (modulus : Nat) (trailing : List UInt8) :
    Overruns window (subcall modulus trailing first) position least number walk := by
  intro bytes ends
  obtain ⟨room, enough, behaves⟩ := overruns bytes ends
  exact ⟨room, enough, fun cursor place count inside space =>
    andThen_failed (behaves cursor place count inside space)⟩

/-- The zero byte at the end of what a call prints is taken back. -/
theorem FollowsExactly.subcall
    (exact : FollowsExactly window number first position (one ++ [0]) size walk)
    (addressable : window.start + window.size < modulus) :
    FollowsText window number (subcall modulus [0] first) position one size walk where
  follows := by
    refine ⟨one.length + 1, Nat.le_succ _, Nat.le_refl _, ?_⟩
    have follows := exact.follows
    rw [length_append] at follows
    apply Follows.subcall ?_ addressable
    exact ⟨follows.counts, fun place inside ends room => by
      obtain ⟨after, returned, printed⟩ := follows.returns place inside ends room
      exact ⟨after, returned, printed.toCounted⟩, follows.fails, follows.short⟩
  overruns := exact.overruns.subcall modulus [0]

/-- Skipping bytes that are there. -/
theorem skipInput_follows (addressable : window.start + window.size < modulus)
    (position skipped : Nat) :
    Follows window (skipInput modulus skipped) position 0 skipped (Printed [] skipped)
      (Walk.skip skipped) where
  counts := Walk.skip_eq_left
  returns := by
    intro cursor rest place inside ends _
    have count := Walk.skip_eq_left.mp ends
    obtain ⟨low, high⟩ := inside
    refine ⟨_, rfl, ⟨rfl, fun _ _ => rfl, rfl, ?_⟩, rfl, Nat.mod_eq_of_lt (by omega)⟩
    dsimp only
    rw [show cursor.inputBytes + modulus - skipped = rest + modulus by omega, Nat.add_mod_right,
      Nat.mod_eq_of_lt (by omega), count]
  fails := by
    intro cursor rest _ _ _ room
    exact absurd room (Nat.not_lt_zero _)
  short := by
    intro cursor _ _ ends
    exact absurd ends Walk.skip_ne_short

variable (room) (addressable : window.start + window.size < modulus)
  (large : number + skipped ≤ modulus)
  (fails : ∀ cursor : Cursor, cursor.outputBytes = room → first cursor = .failed cursor)
include addressable large fails

/-- Skipping more than is there leaves a large number, which shows if the next printer fails
at once. -/
theorem Overruns.skip (overruns : Overruns window first (position + skipped) 0 number walk) :
    Overruns window (Printers.andThen (skipInput modulus skipped) first) position 0 number
      (Walk.andThen (Walk.skip skipped) walk) := by
  intro bytes ends
  rcases Walk.andThen_eq_overrun.mp ends with begun | ⟨middle, begun, ended⟩
  · refine ⟨room, Nat.zero_le _, ?_⟩
    intro cursor place count inside space
    refine ⟨_, (andThen_returned rfl).trans (fails _ space), ?_⟩
    have less := Walk.skip_eq_overrun.mp begun
    dsimp only
    rw [Nat.mod_eq_of_lt (by omega)]
    omega
  · obtain ⟨space, enough, behaves⟩ := overruns middle ended
    refine ⟨space, enough, ?_⟩
    intro cursor place count inside room
    subst count
    obtain ⟨reached, returned, printed, next, within, rfl⟩ :=
      (skipInput_follows addressable position skipped).reaches place inside begun (Nat.zero_le _)
    have written := printed.outputBytes
    obtain ⟨after, failed, more⟩ := behaves reached next rfl within (by rw [← room]; exact written)
    exact ⟨after, (andThen_returned returned).trans failed, more⟩

theorem FollowsExactly.skip
    (exact : FollowsExactly window number first (position + skipped) one size walk) :
    FollowsExactly window number (Printers.andThen (skipInput modulus skipped) first) position one
      (skipped + size) (Walk.andThen (Walk.skip skipped) walk) where
  follows := by
    have whole := (skipInput_follows addressable position skipped).andThen exact.follows
    rwa [length_nil, Nat.zero_add] at whole
  overruns := .skip room addressable large fails exact.overruns

end Composing

section Items

variable {window : Window} {number : Nat}

variable (window number) in
/-- Printers that follow texts one after the other. -/
inductive FollowAll : Nat → List (Cursor → Outcome) → List (List UInt8) → Nat →
    (Nat → Walk) → Prop where
  | nil (position : Nat) : FollowAll position [] [] 0 .left
  | cons {position size further : Nat} {item : Cursor → Outcome} {text : List UInt8}
      {walk next : Nat → Walk} {items : List (Cursor → Outcome)} {texts : List (List UInt8)}
      (head : FollowsText window number item position text size walk)
      (tail : FollowAll (position + size) items texts further next) :
      FollowAll position (item :: items) (text :: texts) (size + further)
        (Walk.andThen walk next)

/-- The separator in front of an item. -/
theorem separator_follows (window : Window) (number : Nat) (separator : List UInt8)
    (first : Bool) (position : Nat) :
    FollowsExactly window number (if first then .returned else put separator) position
      (if first then [] else separator) 0 .left := by
  cases first with
  | true => exact nothing_follows window number position
  | false => exact put_follows window number position separator

variable {position size : Nat} {walk : Nat → Walk}

/-- Items are printed with separators; behind a separator there is always room for one more
byte. -/
theorem FollowAll.each {separator : List UInt8} (some : separator ≠ [])
    {items : List (Cursor → Outcome)} {texts : List (List UInt8)}
    (all : FollowAll window number position items texts size walk) (first : Bool) :
    FollowsText window number (each separator first items) position
        (separated separator first texts) size walk ∧
      (first = false → Overruns window (each separator first items) position 1 number walk) := by
  induction all generalizing first with
  | nil position =>
    exact ⟨(nothing_follows window number position).text, fun _ => overruns_left _ _ _ _ _⟩
  | @cons position size further item text walk next items texts head tail ih =>
    have lead := separator_follows window number separator first position
    have start := lead.andThen head
    obtain ⟨rest, behind⟩ := ih false
    rw [Nat.zero_add] at start
    obtain ⟨need, low, high, follows⟩ := start.follows
    obtain ⟨more, below, above, later⟩ := rest.follows
    have length : (separated separator first (text :: texts)).length =
        ((if first then [] else separator) ++ text).length +
          (separated separator false texts).length :=
      length_append
    refine ⟨⟨⟨_, by omega, by omega, follows.andThen later⟩, ?_⟩, ?_⟩
    · exact .andThen follows start.overruns (behind rfl) (by omega) (Nat.zero_le _)
    · rintro rfl
      have positive := length_pos_of_ne_nil some
      have early : Overruns window _ position 1 number
          _ :=
        .andThen lead.follows (overruns_left window _ position 1 number) head.overruns
          (Nat.le_refl _) positive
      exact .andThen follows early (behind rfl) (by omega) (by omega)

/-- Items that do not count their input. -/
theorem followAll_map {α : Type} {item : α → Cursor → Outcome} {text : α → List UInt8}
    {list : List α}
    (follows : ∀ one ∈ list, FollowsText window number (item one) position (text one) 0 .left) :
    FollowAll window number position (list.map item) (list.map text) 0 .left := by
  induction list with
  | nil => exact .nil position
  | cons one rest ih =>
    rw [forall_mem_cons] at follows
    exact .cons follows.1 (ih follows.2)

/-- The texts at a row of positions, the first one taken off. -/
theorem positions_succ (text : Nat → List UInt8) (count position size : Nat) :
    (List.range (count + 1)).map (fun index => text (position + index * size)) =
      text position :: (List.range count).map fun index => text (position + size + index * size) := by
  rw [range_succ_eq_map, map_cons, map_map, Nat.zero_mul]
  congr 1
  apply map_congr_left
  intro index _
  show text _ = _
  rw [Nat.succ_mul, Nat.add_comm (index * size), Nat.add_assoc]

/-- Many times the same item, each behind the one before. -/
theorem followAll_replicate {item : Cursor → Outcome} {text : Nat → List UInt8}
    (follows : ∀ position, FollowsText window number item position (text position) size walk)
    (count position : Nat) :
    FollowAll window number position (List.replicate count item)
      ((List.range count).map fun index => text (position + index * size)) (count * size)
      (Walk.repeated walk count) := by
  induction count generalizing position with
  | zero =>
    rw [Nat.zero_mul]
    exact .nil position
  | succ count ih =>
    rw [positions_succ, Nat.succ_mul, Nat.add_comm (count * size)]
    exact .cons (follows position) (ih _)

end Items

end Miranda.Printers
