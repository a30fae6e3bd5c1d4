import Mathlib.Data.List.Infix
import Miranda.Dashboard.SensorReader

/-!
# What a reading changes

`WriteDataToQueue` publishes all three values for every line with a known identifier. It takes the
other two from static variables, which it refreshes from the queue only if the loop has not fetched
the message before. Either way they are the values of the latest lines. A line of 500 characters or
more is copied over the end of a block.
-/

namespace Miranda.Dashboard

open Channel

/-- A line is passed to `WriteDataToQueue`, or the loop fetches the latest message. -/
inductive Call where
  | writeDataToQueue (fresh buffer line : Text)
  | fetchLatest

def Call.line : Call → Option Text
  | .writeDataToQueue _ _ line => some line
  | .fetchLatest => none

section Readings

variable {ρ : Type} (units : Units ρ)

/-- What a call does, unless it overruns a block. -/
def Call.run (reader : SensorReader ρ) : Call → Option (SensorReader ρ)
  | .writeDataToQueue fresh buffer line =>
    reader.writeDataToQueue units fresh (put buffer line) reader.requests
  | .fetchLatest =>
    some { reader with
      sensorsQueue := (reader.sensorsQueue.fetchLatest reader.queue).getD reader.sensorsQueue }

/-- The identifier of a line. -/
def pid (line : Text) : Text := (line.drop 3).take 2

def isKnown (line : Text) : Bool := pid line ∈ [kPidCodeRpm, kPidCodeMph, kPidCodeCoolantTemp]

/-- The value of the latest line with an identifier, or zero. -/
def latest (code : Text) (convert : Int → ρ) (lines : List Text) : ρ :=
  match lines.reverse.find? (pid · = code) with
  | none => units.zero
  | some line => convert (hexNumber (put [] line))

def readings (lines : List Text) : Sensors ρ where
  rpm := latest units kPidCodeRpm units.rpm lines
  mph := latest units kPidCodeMph units.mph lines
  coolantTemp := latest units kPidCodeCoolantTemp units.coolantTemp lines

/-- One message for every line with a known identifier, with the values of the lines up to it. -/
def published (lines : List Text) : List (Sensors ρ) :=
  (lines.inits.filter fun seen => seen.getLast?.any isKnown).map (readings units)

variable {units} {seen : List Text} {line : Text}

theorem latest_concat (code : Text) (convert : Int → ρ) :
    latest units code convert (seen ++ [line]) =
      if pid line = code then convert (hexNumber (put [] line))
      else latest units code convert seen := by
  rw [latest]
  by_cases same : pid line = code
  · simp [same]
  · simp [same, latest]

theorem published_concat : published units (seen ++ [line]) =
    published units seen ++ if isKnown line then [readings units (seen ++ [line])] else [] := by
  rw [published, published]
  split <;> simp_all

/-- Each identifier replaces its own value. -/
theorem update_readings : (readings units seen).update units (pid line)
    (hexNumber (put [] line)) =
      if isKnown line then some (readings units (seen ++ [line])) else none := by
  unfold Sensors.update isKnown readings
  simp only [latest_concat]
  split
  · next code => simp [code, kPidCodeRpm, kPidCodeMph, kPidCodeCoolantTemp]
  · split
    · next code => simp [code, kPidCodeRpm, kPidCodeMph, kPidCodeCoolantTemp]
    · split
      · next code => simp [code, kPidCodeRpm, kPidCodeMph, kPidCodeCoolantTemp]
      · simp_all

theorem readings_unknown (unknown : isKnown line = false) :
    readings units (seen ++ [line]) = readings units seen := by
  simp only [isKnown, List.mem_cons, List.not_mem_nil, or_false, decide_eq_false_iff_not,
    not_or] at unknown
  simp [readings, latest_concat, unknown]

/-- The messages and the static variables are those of the lines seen so far. -/
structure Follows (units : Units ρ) (seen : List Text) (reader : SensorReader ρ) : Prop where
  queue : reader.queue = published units seen
  last : reader.last = readings units seen
  newest : ∀ message ∈ reader.queue.getLast?, message = readings units seen

variable {reader : SensorReader ρ}

theorem Follows.fetchLatest (follows : Follows units seen reader) :
    reader.fetchLatest.queue = reader.queue ∧ reader.fetchLatest.last = readings units seen := by
  unfold SensorReader.fetchLatest Reader.fetchLatest
  split
  · exact ⟨rfl, follows.last⟩
  · next fetched taken =>
    split at taken
    · cases taken
      refine ⟨rfl, ?_⟩
      show reader.queue.getLast?.getD _ = _
      cases found : reader.queue.getLast? with
      | none => exact follows.last
      | some message => exact follows.newest message found
    · cases taken

/-- A line is one more line seen. -/
theorem Follows.write (follows : Follows units seen reader) (fresh buffer : Text)
    (ends : '\x00' ∉ line) (long : 6 ≤ line.length) (short : line.length < blockSize) :
    ∃ after, Call.run units reader (.writeDataToQueue fresh buffer line) = some after ∧
      Follows units (seen ++ [line]) after := by
  have data : processHexData fresh (put buffer line) = some (hexNumber (put [] line)) :=
    processHexData_put ends long short
  have id : (cString (put buffer line) 3).take 2 = pid line := by
    rw [cString_put ends (by omega), pid]
  obtain ⟨queue, last⟩ := follows.fetchLatest
  refine ⟨_, by rw [Call.run, SensorReader.writeDataToQueue, data, Option.map_some], ?_⟩
  simp only [SensorReader.writeParsedData, id, last, update_readings]
  cases known : isKnown line with
  | true =>
    refine ⟨?_, rfl, ?_⟩
    · simp [published_concat, known, queue, follows.queue]
    · simp
  | false =>
    refine ⟨?_, ?_, ?_⟩
    · simp [published_concat, known, queue, follows.queue]
    · simpa [readings_unknown known] using last
    · simpa [readings_unknown known, queue] using follows.newest

/-- Calls on lines that fit their block all return. -/
theorem Follows.run (calls : List Call)
    (proper : ∀ line ∈ calls.filterMap Call.line,
      '\x00' ∉ line ∧ 6 ≤ line.length ∧ line.length < blockSize) :
    ∃ after, calls.foldlM (Call.run units) (SensorReader.start units) = some after ∧
      Follows units (calls.filterMap Call.line) after := by
  induction calls using List.reverseRecOn with
  | nil => exact ⟨_, rfl, rfl, rfl, nofun⟩
  | append_singleton calls call ih =>
    rw [List.filterMap_append] at proper ⊢
    obtain ⟨before, reached, follows⟩ :=
      ih fun line member => proper line (List.mem_append_left _ member)
    rw [List.foldlM_append, reached]
    cases call with
    | writeDataToQueue fresh buffer line =>
      obtain ⟨ends, long, short⟩ := proper line (by simp [Call.line])
      obtain ⟨after, ran, later⟩ := follows.write fresh buffer ends long short
      exact ⟨after, by simp [ran], later⟩
    | fetchLatest =>
      simp only [List.filterMap_cons, Call.line, List.filterMap_nil, List.append_nil]
      exact ⟨_, rfl, follows.queue, follows.last, follows.newest⟩

/-- One message is published for every line with a known identifier, and it has the converted value
of this line and the latest earlier values of the other sensors.

Proof: by induction on the calls, what is on the queue and in the static variables are the readings
of the lines so far. -/
theorem readings_update_own_sensor (units : Units ρ) (calls : List Call)
    (proper : ∀ line ∈ calls.filterMap Call.line,
      '\x00' ∉ line ∧ 6 ≤ line.length ∧ line.length < blockSize) :
    (calls.foldlM (Call.run units) (SensorReader.start units)).map SensorReader.queue =
      some (published units (calls.filterMap Call.line)) := by
  obtain ⟨after, ran, follows⟩ := Follows.run calls proper
  rw [ran, Option.map_some, follows.queue]

end Readings

/-- Speed, an unknown identifier, revolutions, and a fetch in between. -/
theorem readings_update_own_sensor_three :
    let calls : List Call := [.writeDataToQueue [] [] "41 0D 10 ".toList, .fetchLatest,
      .writeDataToQueue [] [] "41 00 BF FF A8 93 ".toList,
      .writeDataToQueue [] [] "41 0C 0C 0E ".toList]
    (calls.foldlM (Call.run ⟨id, id, id, 0⟩) (SensorReader.start ⟨id, id, id, 0⟩)).map
        SensorReader.queue = some [⟨0, 0x10, 0⟩, ⟨0x0C0E, 0x10, 0⟩] :=
  (readings_update_own_sensor _ _ (by decide)).trans (by decide)

/-- A line with a known identifier that is too long for a block. -/
def longLine : Text := "41 0C ".toList ++ List.replicate 600 '0'

/-- It overruns the block and is not published. -/
theorem readings_overrun :
    isKnown longLine = true ∧ longLine.length = 606 ∧
      [Call.writeDataToQueue [] [] longLine].foldlM (Call.run ⟨id, id, id, 0⟩)
        (SensorReader.start ⟨id, id, id, 0⟩) = (none : Option (SensorReader Int)) := by
  have ends : '\x00' ∉ longLine := by decide +kernel
  have long : blockSize ≤ longLine.length := by decide +kernel
  refine ⟨by decide +kernel, by decide +kernel, ?_⟩
  rw [List.foldlM_cons, Call.run, SensorReader.writeDataToQueue, processHexData_overrun ends long]
  rfl

end Miranda.Dashboard
