import Mathlib.Algebra.Ring.Parity
import Miranda.Dashboard.SensorReader

/-!
# The polling loop falls behind the adapter

Every request is answered by three lines, but a call of `SendPidCode` reads either an
echo and a data line or only the empty line behind them. Two calls therefore read the
answer to one request. The results say exactly which lines are unread after any number
of calls, which answer each published value came from, and for how long the loop is in
step with the adapter.
-/

namespace Miranda.Dashboard

open Channel List

namespace SensorReader

variable {ρ : Type} {units : Units ρ} {adapter : Adapter} {blocks : Nat → Blocks}

/-- The answers to a number of requests in a row. -/
def answers (adapter : Adapter) (first count : Nat) : List Line :=
  (List.range' first count).flatMap fun request => adapter.answer request (pidCode request)

/-- The lines unread after a number of calls. -/
def unreadAfter (adapter : Adapter) (calls : Nat) : List Line :=
  if calls % 2 = 0 then answers adapter (calls / 2) (calls / 2)
  else ⟨[], calls / 2⟩ :: answers adapter (calls / 2 + 1) (calls / 2)

/-- How many there are. -/
def lag (calls : Nat) : Nat := 3 * (calls / 2) + calls % 2

/-- The values published in a number of calls: the even ones publish. -/
def publishedAfter (calls : Nat) : List Publication :=
  (List.range ((calls + 1) / 2)).map fun answer => ⟨2 * answer, answer⟩

structure Lagging (adapter : Adapter) (calls : Nat) (reader : SensorReader ρ) : Prop where
  requests : reader.requests = calls
  unread : reader.unread = unreadAfter adapter calls
  published : reader.published = publishedAfter calls
  backlog : reader.backlog = (List.range calls).map fun call => lag (call + 1)

theorem answers_cons (first count : Nat) :
    answers adapter first (count + 1) =
      adapter.answer first (pidCode first) ++ answers adapter (first + 1) count := by
  rw [answers, range'_succ, flatMap_cons, answers]

theorem answers_concat (first count : Nat) :
    answers adapter first (count + 1) =
      answers adapter first count ++ adapter.answer (first + count) (pidCode (first + count)) := by
  rw [answers, range'_concat, flatMap_append, flatMap_singleton, Nat.one_mul, answers]

theorem length_answers (first count : Nat) : (answers adapter first count).length = 3 * count := by
  induction count with
  | zero => rfl
  | succ count ih =>
    rw [answers_concat, length_append, ih]
    rfl

theorem length_unreadAfter (calls : Nat) : (unreadAfter adapter calls).length = lag calls := by
  unfold unreadAfter lag
  split
  · rw [length_answers]
    omega
  · rw [length_cons, length_answers]
    omega

/-! ### One call -/

theorem pidCode_cases (request : Nat) :
    pidCode request = kPidCodeRpm ∨ pidCode request = kPidCodeMph ∨
      pidCode request = kPidCodeCoolantTemp := by
  unfold pidCode
  split
  · exact .inl rfl
  · split
    · exact .inr (.inl rfl)
    · exact .inr (.inr rfl)

/-- The data line of an answer is recognised. -/
theorem update_dataLine (units : Units ρ) (adapter : Adapter) (request : Nat)
    (buffer : Text) (last : Sensors ρ) (parsedData : Int) :
    ∃ updated, last.update units
      ((cString (put buffer (adapter.dataLine request (pidCode request))) 3).take 2) parsedData =
        some updated := by
  rcases pidCode_cases request with code | code | code <;> rw [code] <;> exact ⟨_, rfl⟩

/-- What is left of a reader when a value has been published. -/
structure Publishes (reader after : SensorReader ρ) (source : Nat) : Prop where
  unread : after.unread = reader.unread
  requests : after.requests = reader.requests
  published : after.published = reader.published ++ [⟨reader.requests - 1, source⟩]
  backlog : after.backlog = reader.backlog

theorem fetchLatest_frame (reader : SensorReader ρ) :
    reader.fetchLatest.unread = reader.unread ∧ reader.fetchLatest.requests = reader.requests ∧
      reader.fetchLatest.published = reader.published ∧
      reader.fetchLatest.backlog = reader.backlog := by
  unfold fetchLatest
  split <;> exact ⟨rfl, rfl, rfl, rfl⟩

/-- The data line of an answer fits the block it is copied into. -/
theorem processHexData_dataLine (adapter : Adapter) (request : Nat) (fresh buffer : Text) :
    ∃ parsedData, processHexData fresh
      (put buffer (adapter.dataLine request (pidCode request))) = some parsedData := by
  have ends := adapter.ends request
  have short := adapter.short request
  rcases pidCode_cases request with code | code | code <;> rw [code]
  all_goals
    refine ⟨_, processHexData_put ?_ ?_ ?_⟩
    · simpa [Adapter.dataLine, kPidCodeRpm, kPidCodeMph, kPidCodeCoolantTemp] using ends
    · simp [Adapter.dataLine, kPidCodeRpm, kPidCodeMph, kPidCodeCoolantTemp]
    · simpa [Adapter.dataLine, kPidCodeRpm, kPidCodeMph, kPidCodeCoolantTemp] using short

/-- It is published. -/
theorem writeDataToQueue_dataLine (units : Units ρ) (adapter : Adapter) (fresh buffer : Text)
    (request : Nat) (reader : SensorReader ρ) :
    ∃ after, writeDataToQueue units fresh
        (put buffer (adapter.dataLine request (pidCode request))) request reader = some after ∧
      Publishes reader after request := by
  obtain ⟨unread, requests, published, backlog⟩ := fetchLatest_frame reader
  obtain ⟨parsedData, parsed⟩ := processHexData_dataLine adapter request fresh buffer
  obtain ⟨updated, known⟩ := update_dataLine units adapter request buffer reader.fetchLatest.last
    parsedData
  refine ⟨_, by rw [writeDataToQueue, parsed, Option.map_some], ?_⟩
  simp only [writeParsedData, known]
  exact ⟨unread, requests, by rw [published, requests], backlog⟩

variable {fresh : Blocks} {rest : List Line} {request : Nat} {reader : SensorReader ρ} {calls : Nat}

/-- With an answer at the front of the lines a value is published from it, and its
empty line is left. -/
theorem processData_answer
    (unread : reader.unread = adapter.answer request (pidCode request) ++ rest) :
    ∃ after, reader.processData units fresh = some after ∧
      Publishes { reader with unread := ⟨[], request⟩ :: rest } after request := by
  obtain ⟨after, written, publishes⟩ := writeDataToQueue_dataLine units adapter fresh.hex
    (put fresh.response ('>' :: '0' :: '1' :: pidCode request)) request
    { reader with unread := ⟨[], request⟩ :: rest }
  refine ⟨after, ?_, publishes⟩
  rw [processData, unread]
  exact written

/-- An empty line is read and nothing else happens. -/
theorem processData_empty (unread : reader.unread = ⟨[], request⟩ :: rest) :
    reader.processData units fresh = some { reader with unread := rest } := by
  rw [processData, unread]
  rfl

/-! ### The loop -/

theorem unreadAfter_even (answered : Nat) :
    unreadAfter adapter (2 * answered) = answers adapter answered answered := by
  rw [unreadAfter, if_pos (by omega), Nat.mul_div_cancel_left answered (by decide)]

theorem unreadAfter_odd (answered : Nat) :
    unreadAfter adapter (2 * answered + 1) =
      ⟨[], answered⟩ :: answers adapter (answered + 1) answered := by
  have half : (2 * answered + 1) / 2 = answered := by omega
  rw [unreadAfter, if_neg (by omega), half]

/-- The lines a call has to read from, and the lines it leaves. -/
theorem processData_lagging (units : Units ρ) (fresh : Blocks)
    (requests : reader.requests = calls + 1)
    (unread : reader.unread = unreadAfter adapter calls ++ adapter.answer calls (pidCode calls))
    (published : reader.published = publishedAfter calls) :
    ∃ after, reader.processData units fresh = some after ∧ after.requests = calls + 1 ∧
      after.unread = unreadAfter adapter (calls + 1) ∧
      after.published = publishedAfter (calls + 1) ∧ after.backlog = reader.backlog := by
  rcases Nat.even_or_odd' calls with ⟨answered, rfl | rfl⟩
  · have front : reader.unread = adapter.answer answered (pidCode answered) ++
        answers adapter (answered + 1) answered := by
      rw [unread, unreadAfter_even, ← answers_cons, answers_concat, Nat.two_mul]
    obtain ⟨after, read, publishes⟩ := processData_answer front
    refine ⟨after, read, publishes.requests.trans requests, ?_, ?_, publishes.backlog⟩
    · rw [publishes.unread, unreadAfter_odd]
    · have halves : (2 * answered + 1) / 2 = answered ∧
          (2 * answered + 1 + 1) / 2 = answered + 1 := by
        omega
      rw [publishes.published, requests, published, publishedAfter, publishedAfter, halves.1,
        halves.2, range_succ, map_append]
      rfl
  · have front : reader.unread = ⟨[], answered⟩ :: answers adapter (answered + 1) (answered + 1) := by
      have last : answered + 1 + answered = 2 * answered + 1 := by omega
      rw [unread, unreadAfter_odd, answers_concat, last, cons_append]
    refine ⟨_, processData_empty front, requests, ?_, ?_, rfl⟩
    · rw [← unreadAfter_even]
      rfl
    · have halves : (2 * answered + 1 + 1) / 2 = answered + 1 ∧
          (2 * answered + 1 + 1 + 1) / 2 = answered + 1 := by omega
      rw [published, publishedAfter, publishedAfter, halves.1, halves.2]

theorem poll_lagging (units : Units ρ) (lagging : Lagging adapter calls reader) :
    ∃ after, reader.poll units adapter blocks = some after ∧ Lagging adapter (calls + 1) after := by
  obtain ⟨rfl, unread, published, backlog⟩ := lagging
  let asked : SensorReader ρ :=
    { reader with
      unread := reader.unread ++ adapter.answer reader.requests (pidCode reader.requests)
      requests := reader.requests + 1 }
  have lines : asked.unread = unreadAfter adapter reader.requests ++
      adapter.answer reader.requests (pidCode reader.requests) := by rw [← unread]
  obtain ⟨read, found, requests, left, values, counts⟩ :=
    processData_lagging units _ rfl lines published
  have grown : read.backlog ++ [read.unread.length] =
      (List.range (reader.requests + 1)).map fun call => lag (call + 1) := by
    rw [counts, backlog, left, length_unreadAfter, range_succ, map_append]
    rfl
  refine ⟨_, by rw [poll, sendPidCode, found]; rfl, ?_⟩
  dsimp only
  split
  · exact ⟨requests, left, values, grown⟩
  · exact ⟨requests, left, values, grown⟩

/-- What any number of calls comes to. -/
theorem polls_lagging (units : Units ρ) (adapter : Adapter) (blocks : Nat → Blocks) (calls : Nat) :
    ∃ reader, polls units adapter blocks calls = some reader ∧ Lagging adapter calls reader := by
  induction calls with
  | zero => exact ⟨start units, rfl, rfl, rfl, rfl, rfl⟩
  | succ calls ih =>
    obtain ⟨reader, reached, lagging⟩ := ih
    obtain ⟨after, polled, later⟩ := poll_lagging units lagging
    exact ⟨after, by rw [polls, reached, Option.bind_some, polled], later⟩

/-! ### Staying in step -/

/-- Every value so far came from the answer to the request that was being made. -/
def InStep (reader : SensorReader ρ) : Prop :=
  ∀ publication ∈ reader.published, publication.source = publication.during

/-- The number of unread lines was below a bound after every call. -/
def Bounded (reader : SensorReader ρ) (bound : Nat) : Prop := ∀ count ∈ reader.backlog, count < bound

theorem Lagging.inStep_iff (lagging : Lagging adapter calls reader) :
    reader.InStep ↔ calls ≤ 2 := by
  constructor
  · intro inStep
    have late : ¬ 3 ≤ calls := by
      intro three
      have second : (⟨2, 1⟩ : Publication) ∈ reader.published := by
        rw [lagging.published]
        exact mem_map.mpr ⟨1, mem_range.mpr (by omega), rfl⟩
      exact absurd (inStep _ second) (by decide)
    omega
  · intro few publication member
    rw [lagging.published] at member
    obtain ⟨answer, inside, rfl⟩ := mem_map.mp member
    have first : answer = 0 := by
      have := mem_range.mp inside
      omega
    rw [first]

theorem Lagging.bounded {bound : Nat} (lagging : Lagging adapter calls reader) (few : calls ≤ 2)
    (room : 4 ≤ bound) :
    reader.Bounded bound := by
  intro count member
  rw [lagging.backlog] at member
  obtain ⟨call, inside, rfl⟩ := mem_map.mp member
  have early := mem_range.mp inside
  unfold lag
  omega

/-- The loop is in step with the adapter for its first two calls of `SendPidCode` and
not from the third on.

Proof: two calls read the answer to one request (`polls_lagging`). -/
theorem polling_in_step_iff (units : Units ρ) (adapter : Adapter) (blocks : Nat → Blocks)
    (calls bound : Nat) (room : 4 ≤ bound) :
    (∃ reader, polls units adapter blocks calls = some reader ∧ reader.InStep ∧
      reader.Bounded bound) ↔ calls ≤ 2 := by
  obtain ⟨reader, reached, lagging⟩ := polls_lagging units adapter blocks calls
  constructor
  · rintro ⟨other, same, inStep, _⟩
    cases reached.symm.trans same
    exact lagging.inStep_iff.mp inStep
  · intro few
    exact ⟨reader, reached, lagging.inStep_iff.mpr few, lagging.bounded few room⟩

/-- Raw values, for looking at runs. -/
def rawUnits : Units Int := ⟨id, id, id, 0⟩

/-- An adapter of a car that stands still. -/
def standing : Adapter where
  payload _ := ['0', '0', ' ']
  ends _ := by decide
  short _ := by decide

theorem polling_in_step_two_calls :
    ∃ reader, polls rawUnits standing (fun _ => ⟨[], []⟩) 2 = some reader ∧ reader.InStep ∧
      reader.Bounded 4 :=
  (polling_in_step_iff rawUnits standing _ 2 4 (by decide)).mpr (by decide)

/-- In the first iteration the request for the coolant temperature publishes the answer
to the request for the speed, and the unread lines grow without a bound. -/
theorem polling_falls_behind :
    (∃ reader, polls rawUnits standing (fun _ => ⟨[], []⟩) 3 = some reader ∧
      pidCode 2 = kPidCodeCoolantTemp ∧ pidCode 1 = kPidCodeMph ∧
      reader.published = [⟨0, 0⟩, ⟨2, 1⟩] ∧ ¬ reader.InStep) ∧
    ∀ bound, ∃ calls reader, polls rawUnits standing (fun _ => ⟨[], []⟩) calls = some reader ∧
      bound ≤ reader.unread.length := by
  constructor
  · obtain ⟨reader, reached, lagging⟩ := polls_lagging rawUnits standing _ 3
    refine ⟨reader, reached, rfl, rfl, lagging.published, ?_⟩
    intro inStep
    exact absurd (lagging.inStep_iff.mp inStep) (by decide)
  · intro bound
    obtain ⟨reader, reached, lagging⟩ :=
      polls_lagging rawUnits standing _ _
    refine ⟨2 * bound, reader, reached, ?_⟩
    rw [lagging.unread, length_unreadAfter, lag]
    omega

end SensorReader

end Miranda.Dashboard
