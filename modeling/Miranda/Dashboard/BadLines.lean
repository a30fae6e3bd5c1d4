import Mathlib.Data.List.TakeWhile
import Miranda.Dashboard.Polling
import Miranda.Dashboard.Readings

/-!
# Lines that are no responses

`ProcessData` passes on whatever stands behind an echo, and `WriteDataToQueue` looks only at the
place of the identifier. The results say that the loop makes these calls, and for which lines from
the adapter they do no harm.
-/

namespace Miranda.Dashboard

open SensorReader

/-- The text `41`, a known identifier and hexadecimal bytes, with spaces between them. -/
def isPositive (line : Text) : Bool :=
  let bytes := ((line.drop 6).splitOn ' ').filter (· ≠ [])
  line.take 3 = ['4', '1', ' '] ∧ isKnown line ∧ (line)[5]? = some ' ' ∧ bytes ≠ [] ∧
    bytes.all fun byte => byte.length = 2 ∧ byte.all fun digit => (hexDigit digit).isSome

/-- A line is read from its start, from the identifier and from behind it, each time up to a
terminator. -/
def Inside (line : Text) : Prop := ∀ offset ∈ [0, 3, 6], offset ≤ line.length

/-- `ProcessData`: the string it finds in the buffer and passes on, and the lines it leaves. -/
def processLines (blocks : Blocks) : List Line → Option (List Call × List Line)
  | [] => none
  | line :: rest =>
    if line.text.head? = some '>' then
      rest.head?.map fun data => ([.writeDataToQueue blocks.hex
        (put (put blocks.response line.text) data.text) (cString data.text 0)], rest.tail)
    else some ([], rest)

/-- The loop from a request on, on any lines. Behind every third it fetches the message to show. -/
def loop : Nat → List Blocks → List Line → List Call
  | _, [], _ => []
  | request, blocks :: later, lines =>
    match processLines blocks lines with
    | none => []
    | some (calls, rest) =>
      calls ++ (if request % 3 = 2 then [.fetchLatest] else []) ++ loop (request + 1) later rest

section Lines

variable {ρ : Type} (units : Units ρ)

/-- A line that is no positive response publishes nothing and is not read beyond its end, no block
is overrun, and there is a message whenever one is shown. -/
def Harmless (reader : SensorReader ρ) : List Call → Prop
  | [] => True
  | .writeDataToQueue fresh buffer line :: later =>
    ∃ after, Call.run units reader (.writeDataToQueue fresh buffer line) = some after ∧
      (isPositive line ∨ after.queue = reader.queue ∧ Inside line) ∧ Harmless after later
  | .fetchLatest :: later =>
    ∃ after, Call.run units reader .fetchLatest = some after ∧
      reader.queue ≠ [] ∧ Harmless after later

/-- What stands behind the string in a buffer may as well have been there before. -/
theorem put_cString (buffer text : Text) :
    put (put buffer text) (cString text 0) = put buffer text := by
  simp only [put, cString, List.drop_zero]
  generalize buffer.drop _ = rest
  induction text with
  | nil => rfl
  | cons char text ih =>
    rw [List.takeWhile_cons]
    split
    · exact congrArg _ ih
    · next same => simp_all

/-- What a reader has published and will publish with, apart from lines and histories. -/
def SensorReader.values (reader : SensorReader ρ) :
    List (Sensors ρ) × Sensors ρ × Channel.Reader (Sensors ρ) :=
  (reader.queue, reader.last, reader.sensorsQueue)

/-- A call depends on the values only. -/
theorem Call.run_values {reader other : SensorReader ρ} (same : reader.values = other.values)
    (call : Call) :
    (Call.run units reader call).map values =
      (Call.run units other call).map values := by
  obtain ⟨queue, last, sensorsQueue⟩ := by
    simpa only [values, Prod.mk.injEq] using same
  cases call with
  | fetchLatest => simp [Call.run, values, queue, last, sensorsQueue]
  | writeDataToQueue fresh buffer line =>
    simp only [Call.run, SensorReader.writeDataToQueue, Option.map_map]
    refine congrArg (Option.map · _) (funext fun parsedData => ?_)
    have fetched : reader.fetchLatest.values = other.fetchLatest.values := by
      unfold SensorReader.fetchLatest
      rw [queue, sensorsQueue, last]
      split <;> simp [values, queue, last, sensorsQueue]
    simp only [values, Prod.mk.injEq] at fetched
    simp only [Function.comp, writeParsedData, fetched.2.1]
    split <;> simp [values, fetched]

/-- So do a number of calls. -/
theorem foldlM_run_values (calls : List Call) {reader other : SensorReader ρ}
    (same : reader.values = other.values) :
    (calls.foldlM (Call.run units) reader).map values =
      (calls.foldlM (Call.run units) other).map values := by
  induction calls generalizing reader other with
  | nil => exact congrArg some same
  | cons call later ih =>
    have step := Call.run_values units same call
    rw [List.foldlM_cons, List.foldlM_cons]
    cases ran : Call.run units reader call with
    | none =>
      rw [ran, Option.map_none] at step
      rw [Option.map_eq_none_iff.mp step.symm]
    | some after =>
      rw [ran, Option.map_some] at step
      obtain ⟨otherAfter, ranOther, values⟩ := Option.map_eq_some_iff.mp step.symm
      rw [ranOther]
      exact ih values.symm

/-- The values on the queue are those of `ProcessData`. -/
theorem processData_processLines (blocks : Blocks) (reader : SensorReader ρ) :
    (reader.processData units blocks).map (fun after => (after.values, after.unread)) =
    (processLines blocks reader.unread).bind fun (calls, rest) =>
      (calls.foldlM (Call.run units) reader).map fun after => (after.values, rest) := by
  unfold processData processLines
  cases reader.unread with
  | nil => rfl
  | cons line rest =>
    have first : (put blocks.response line.text).head? = some '>' ↔ line.text.head? = some '>' := by
      cases line.text with
      | nil => simp [put]
      | cons char rest => rfl
    simp only [first]
    split
    · cases rest with
      | nil => rfl
      | cons data rest =>
        simp only [List.head?_cons, Option.map_some, Option.bind_some, List.foldlM_cons,
          List.foldlM_nil, Call.run, put_cString, SensorReader.writeDataToQueue, Option.map_map]
        cases processHexData _ _ with
        | none => rfl
        | some parsedData =>
          simp only [Option.map_some, Function.comp, writeParsedData]
          unfold SensorReader.fetchLatest
          cases reader.sensorsQueue.fetchLatest reader.queue with
          | none =>
            dsimp only
            split <;> rfl
          | some fetched =>
            dsimp only
            split <;> rfl
    · rfl

/-- Lines that come in later do not change what is read. -/
theorem processLines_append {blocks : Blocks} {lines rest : List Line} {calls : List Call}
    (read : processLines blocks lines = some (calls, rest)) (more : List Line) :
    processLines blocks (lines ++ more) = some (calls, rest ++ more) := by
  cases lines with
  | nil => cases read
  | cons line lines =>
    rw [List.cons_append]
    rw [processLines] at read ⊢
    split at read
    · next echo =>
      rw [if_pos echo]
      cases lines with
      | nil => cases read
      | cons data lines =>
        cases read
        rfl
    · next other =>
      rw [if_neg other]
      cases read
      rfl

section Polls

open List

variable (adapter : Adapter) (blocks : Nat → Blocks)

/-- The loop has made these calls so far and goes on with the lines that are unread. -/
structure Made (calls : Nat) (reader : SensorReader ρ) (made : List Call) : Prop where
  reached : polls units adapter blocks calls = some reader
  requests : reader.requests = calls
  goesOn : ∀ later more, loop 0 ((range calls).map blocks ++ later)
    (answers adapter 0 calls ++ more) = made ++ loop calls later (reader.unread ++ more)
  values : (made.foldlM (Call.run units) (.start units)).map values = some reader.values

variable {units adapter blocks} {calls : Nat} {reader : SensorReader ρ} {made : List Call}

/-- One more request. -/
theorem Made.poll (before : Made units adapter blocks calls reader made) :
    ∃ after made, Made units adapter blocks (calls + 1) after made := by
  obtain ⟨reached, rfl, goesOn, values⟩ := before
  obtain ⟨after, polled, lagging⟩ :=
    polls_lagging units adapter blocks (reader.requests + 1)
  have poll := polled
  rw [polls, reached, Option.bind_some, SensorReader.poll, SensorReader.sendPidCode] at poll
  set asked : SensorReader ρ := { reader with
    unread := reader.unread ++ adapter.answer reader.requests (pidCode reader.requests)
    requests := reader.requests + 1 }
  obtain ⟨sent, read, isAfter⟩ := Option.map_eq_some_iff.mp poll
  obtain ⟨processed, read, isSent⟩ := Option.map_eq_some_iff.mp read
  have step := processData_processLines units (blocks reader.requests) asked
  rw [read, Option.map_some, eq_comm, Option.bind_eq_some_iff] at step
  obtain ⟨⟨own, rest⟩, lines, step⟩ := step
  obtain ⟨ran, folded, same⟩ := Option.map_eq_some_iff.mp step
  obtain ⟨sameValues, rfl⟩ := Prod.mk.inj same
  set shown : List Call := if reader.requests % 3 = 2 then [.fetchLatest] else [] with isShown
  refine ⟨after, made ++ (own ++ shown), polled, lagging.requests, ?_, ?_⟩
  · intro later more
    have unread : after.unread = processed.unread := by
      rw [← isAfter, ← isSent]
      split <;> rfl
    rw [range_succ, map_append, append_assoc, answers_concat, append_assoc, goesOn,
      Nat.zero_add, ← append_assoc, map_singleton, singleton_append, loop,
      processLines_append lines more, unread]
    simp only [append_assoc, isShown]
  · obtain ⟨soFar, folding, values⟩ := Option.map_eq_some_iff.mp values
    have asking : soFar.values = asked.values := values
    rw [foldlM_append, folding, Option.bind_eq_bind, Option.bind_some,
      foldlM_run_values units _ asking, foldlM_append, folded, Option.bind_eq_bind,
      Option.bind_some, foldlM_run_values units _ sameValues, isShown, ← isAfter, ← isSent]
    have requests : processed.requests = reader.requests + 1 := by
      rw [← lagging.requests, ← isAfter, ← isSent]
      split <;> rfl
    by_cases third : reader.requests % 3 = 2
    · rw [if_pos third, if_pos (show processed.requests % 3 = 0 by omega)]
      rfl
    · rw [if_neg third, if_neg (show ¬ processed.requests % 3 = 0 by omega)]
      rfl

end Polls

variable {units} {calls : List Call}

theorem published_ne_nil (seen : List Text) : published units seen ≠ [] ↔ seen.any isKnown := by
  induction seen using List.reverseRecOn with
  | nil => simp [published]
  | append_singleton seen line ih =>
    rw [published_concat]
    cases known : isKnown line <;> simp [known, ← ih]

theorem length_of_isPositive {line : Text} (positive : isPositive line) : 6 ≤ line.length := by
  simp only [isPositive, decide_eq_true_eq] at positive
  obtain ⟨inside, _⟩ := List.getElem?_eq_some_iff.mp positive.2.2.1
  exact inside

theorem zero_not_mem_loop (request : Nat) (blocks : List Blocks) (lines : List Line) :
    ∀ line ∈ (loop request blocks lines).filterMap Call.line, '\x00' ∉ line := by
  induction blocks generalizing request lines with
  | nil => simp [loop]
  | cons block later ih =>
    rw [loop]
    split
    · simp
    · next calls rest read =>
      simp only [List.filterMap_append, List.mem_append]
      rintro line ((own | shown) | behind)
      · cases lines with
        | nil => cases read
        | cons first others =>
          rw [processLines] at read
          split at read
          · obtain ⟨data, _, same⟩ := Option.map_eq_some_iff.mp read
            cases same
            cases List.mem_singleton.mp own
            exact fun member => by simpa using List.mem_takeWhile_imp member
          · cases read
            cases own
      · split at shown <;> cases shown
      · exact ih _ _ line behind

theorem start_follows : Follows units [] (start units) := ⟨rfl, rfl, nofun⟩

theorem harmless_iff {seen : List Text} {reader : SensorReader ρ}
    (follows : Follows units seen reader)
    (ends : ∀ line ∈ calls.filterMap Call.line, '\x00' ∉ line) :
    Harmless units reader calls ↔
      (∀ line ∈ calls.filterMap Call.line,
        line.length < blockSize ∧
          (isPositive line ∨ isKnown line = false ∧ 6 ≤ line.length)) ∧
      (calls.any (·.line.isNone) →
        (seen ++ (calls.takeWhile (·.line.isSome)).filterMap Call.line).any isKnown) := by
  induction calls generalizing seen reader with
  | nil => simp [Harmless]
  | cons call later ih =>
    cases call with
    | fetchLatest =>
      have shown : Follows units seen { reader with
          sensorsQueue := (reader.sensorsQueue.fetchLatest reader.queue).getD reader.sensorsQueue } :=
        ⟨follows.queue, follows.last, follows.newest⟩
      simp only [Harmless, Call.run, Option.some.injEq, exists_eq_left']
      rw [ih shown ends, follows.queue, published_ne_nil]
      simp only [List.any_append, List.takeWhile_cons, List.filterMap_cons, Call.line]
      cases seen.any isKnown <;> simp
    | writeDataToQueue fresh buffer line =>
      change ∀ other ∈ line :: later.filterMap Call.line, _ at ends
      rw [List.forall_mem_cons] at ends
      by_cases short : line.length < blockSize
      swap
      · have overrun : Call.run units reader (.writeDataToQueue fresh buffer line) = none := by
          rw [Call.run, SensorReader.writeDataToQueue,
            processHexData_overrun ends.1 (Nat.not_lt.mp short), Option.map_none]
        refine iff_of_false ?_ ?_
        · rintro ⟨after, ran, _⟩
          cases overrun.symm.trans ran
        · rintro ⟨good, _⟩
          exact short (good line (by simp [Call.line])).1
      by_cases long : 6 ≤ line.length
      · obtain ⟨after, ran, seenNow⟩ := follows.write fresh buffer ends.1 long short
        have inside : Inside line := by
          have early : 3 ≤ line.length := by omega
          simp [Inside, early, long]
        simp only [Harmless, ran, Option.some.injEq, exists_eq_left']
        rw [ih seenNow ends.2, seenNow.queue, follows.queue, published_concat]
        show _ ↔ (∀ other ∈ line :: later.filterMap Call.line, _) ∧ (_ → (seen ++ line ::
          (later.takeWhile _).filterMap Call.line).any isKnown)
        rw [List.forall_mem_cons, and_assoc]
        refine and_congr ?_ (and_congr_right' ?_)
        · cases isKnown line <;> simp [inside, long, short]
        · simp [Call.line]
      · have bad : ¬ isPositive line := fun positive => long (length_of_isPositive positive)
        refine iff_of_false ?_ ?_
        · rintro ⟨after, _, positive | ⟨_, inside⟩, _⟩
          · exact bad positive
          · exact long (inside 6 (by simp))
        · rintro ⟨good, _⟩
          rcases (good line (by simp [Call.line])).2 with positive | ⟨_, inside⟩
          · exact bad positive
          · exact long inside

/-- The loop does no harm exactly if every line it passes on fits a block and is a positive response,
or has six characters and no known identifier, and one of the first three calls finds a known one.

Proof: by induction on the calls. The messages are those of the lines seen (`Follows.write`), so a
line publishes exactly if its identifier is known, and a line of fewer than six characters is read
beyond its end. -/
theorem bad_lines_harmless_iff (units : Units ρ) (blocks : List Blocks) (lines : List Line) :
    Harmless units (start units) (loop 0 blocks lines) ↔
      (∀ line ∈ (loop 0 blocks lines).filterMap Call.line,
        line.length < blockSize ∧
          (isPositive line ∨ isKnown line = false ∧ 6 ≤ line.length)) ∧
      ((loop 0 blocks lines).any (·.line.isNone) →
        (((loop 0 blocks lines).takeWhile (·.line.isSome)).filterMap Call.line).any isKnown) :=
  harmless_iff start_follows (zero_not_mem_loop 0 blocks lines)

end Lines

/-- A question mark in answer to a request for the revolutions leaves `0C` of the echo behind it and
is published, and three times no data leave nothing to show. -/
theorem bad_lines_publish :
    let fresh : Blocks := ⟨[], []⟩
    let units : Units Int := ⟨id, id, id, 0⟩
    let question : List Line := [⟨">010C".toList, 0⟩, ⟨"?".toList, 0⟩]
    let noData : List Line := [⟨">010C".toList, 0⟩, ⟨"NO DATA".toList, 0⟩]
    ((loop 0 [fresh] question).foldlM (Call.run units) (.start units)).map queue =
        some [⟨0, 0, 0⟩] ∧
      ¬ Harmless units (.start units) (loop 0 [fresh] question) ∧
      ¬ Harmless units (.start units)
        (loop 0 [fresh, fresh, fresh] (noData ++ noData ++ noData)) := by
  refine ⟨by decide, ?_, ?_⟩
  · rw [harmless_iff start_follows (by decide)]
    decide
  · rw [harmless_iff start_follows (by decide)]
    decide

end Miranda.Dashboard
