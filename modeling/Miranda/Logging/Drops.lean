import Miranda.Timing.Arithmetic
import Mathlib.Data.List.Nodup
import Mathlib.Data.List.Perm.Basic
import Mathlib.Algebra.BigOperators.Group.List.Basic

/-!
# Dropped log messages

`Write` puts log messages into a queue without waiting. When the queue is full it drops
the message and counts it. While there are dropped messages it first waits for some time
to pass, then it writes a report with their number, and only behind a report it writes a
message again.

Messages are known by the order in which they were handed to `Write`, and the buffers
from the queue by what they are for. Whether the queue has room is left open at each
attempt; the text of a report is represented by the numbers in it.
-/

namespace Miranda.Logging

open Signed Timing List Int32

/-- A buffer that was obtained from the queue: for a log message, or for a report. -/
inductive Buffer where
  | log (number : Nat)
  | report (number : Nat)
  deriving DecidableEq, Repr

/-- What was written to the queue. A report is the text "%d logs starting at %d.%d
dropped", with the count and the time. -/
inductive Entry where
  | log (number : Nat)
  | report (number : Nat) (count : Int32) (start : Time)
  deriving DecidableEq, Repr

def Entry.buffer : Entry → Buffer
  | .log number => .log number
  | .report number _ _ => .report number

/-- The variables of the process, with the history of its buffers. -/
structure Writer where
  droppedMessages : Int32 := 0
  droppedStart : Time := Time.kZero
  backoffStart : Time := Time.kZero
  /-- How many messages were handed to `Write`. -/
  handed : Nat := 0
  /-- How many buffers were obtained for reports. -/
  reports : Nat := 0
  written : List Entry := []
  freed : List Buffer := []
  deriving DecidableEq, Repr

/-- A call of `Write`: the time of the message, and whether the queue has room for a
report and for the message. -/
structure Call where
  time : Time
  reportFits : Bool
  fits : Bool
  deriving DecidableEq, Repr

/-- `kDropBackoff`. -/
def kDropBackoff : Time := ⟨0, 100000000⟩

namespace Writer

/-- `WriteMessage` without waiting, which frees the buffer if the queue is full. -/
def writeMessage (writer : Writer) (fits : Bool) (entry : Entry) : Writer :=
  if fits then { writer with written := writer.written ++ [entry] }
  else { writer with freed := writer.freed ++ [entry.buffer] }

/-- The last part of `Write`, for the newest message. -/
def writeNewest (writer : Writer) (number : Nat) (call : Call) : Writer :=
  let after := writer.writeMessage call.fits (.log number)
  if call.fits then after
  else if after.droppedMessages == 0 then
    { after with
      droppedStart := call.time
      backoffStart := call.time
      droppedMessages := after.droppedMessages + 1 }
  else { after with droppedMessages := after.droppedMessages + 1 }

/-- `Write`. -/
def write (writer : Writer) (call : Call) : Writer :=
  let number := writer.handed
  let writer := { writer with handed := number + 1 }
  if writer.droppedMessages > 0 then
    if (call.time - writer.backoffStart).lt kDropBackoff then
      { writer with
        droppedMessages := writer.droppedMessages + 1
        freed := writer.freed ++ [.log number] }
    else
      let entry := .report writer.reports writer.droppedMessages writer.droppedStart
      let after := { writer with reports := writer.reports + 1 }.writeMessage call.reportFits entry
      if call.reportFits then { after with droppedMessages := 0 }.writeNewest number call
      else
        { after with
          droppedMessages := after.droppedMessages + 1
          backoffStart := call.time
          freed := after.freed ++ [.log number] }
  else writer.writeNewest number call

/-- Calls one after the other. -/
def writes (writer : Writer) (calls : List Call) : Writer := calls.foldl write writer

end Writer

/-- What an entry of the queue settles: a message, or the messages a report counts. -/
inductive Settled where
  | log (number : Nat)
  | report (number : Nat) (start : Time) (dropped : List Nat)
  deriving DecidableEq, Repr

namespace Settled

def entry : Settled → Entry
  | .log number => .log number
  | .report number start dropped => .report number (Int32.ofNat dropped.length) start

def numbers : Settled → List Nat
  | .log number => [number]
  | .report _ _ dropped => dropped

end Settled

/-- The buffers obtained from the queue. -/
def obtained (handed reports : Nat) : List Buffer :=
  (List.range handed).map .log ++ (List.range reports).map .report

/-- The written entries settle messages, and together with the dropped messages that no
report has counted yet these are all messages in their order. Every buffer is enqueued or
freed. -/
structure Accounts (writer : Writer) (settled : List Settled) (pending : List Nat) : Prop where
  written : writer.written = settled.map Settled.entry
  order : settled.flatMap Settled.numbers ++ pending = List.range writer.handed
  counted : writer.droppedMessages.toInt = pending.length
  small : ∀ item ∈ settled, item.numbers.length < 2 ^ 31
  buffers : (writer.written.map Entry.buffer ++ writer.freed).Perm
    (obtained writer.handed writer.reports)

section Steps

variable {writer after : Writer} {settled : List Settled} {pending : List Nat}

theorem obtained_handed (handed reports : Nat) :
    (obtained (handed + 1) reports).Perm (.log handed :: obtained handed reports) := by
  rw [obtained, range_succ, map_append, append_assoc]
  exact perm_middle

theorem obtained_reports (handed reports : Nat) :
    (obtained handed (reports + 1)).Perm (.report reports :: obtained handed reports) := by
  rw [obtained, range_succ, map_append, ← append_assoc]
  exact perm_append_singleton _ _

/-- A message is dropped and its buffer freed. -/
theorem Accounts.drop (accounts : Accounts writer settled pending)
    (room : writer.droppedMessages ≠ Int32.maxValue) (handed : after.handed = writer.handed + 1)
    (reports : after.reports = writer.reports) (written : after.written = writer.written)
    (freed : after.freed = writer.freed ++ [.log writer.handed])
    (dropped : after.droppedMessages = writer.droppedMessages + 1) :
    Accounts after settled (pending ++ [writer.handed]) where
  written := written.trans accounts.written
  order := by
    rw [handed, range_succ, ← accounts.order, append_assoc]
  counted := by
    have upper := writer.droppedMessages.toInt_lt
    have counted := accounts.counted
    have most : writer.droppedMessages.toInt ≠ 2147483647 := by
      intro same
      exact room (toInt_inj.mp same)
    rw [dropped, toInt_add, toInt_one, bmod_word (by omega) (by omega), length_append,
      length_singleton]
    omega
  small := accounts.small
  buffers := by
    rw [written, freed, handed, reports, ← append_assoc]
    exact (perm_append_singleton _ _).trans
      ((accounts.buffers.cons _).trans (obtained_handed _ _).symm)

/-- A message is enqueued when no drops are pending. -/
theorem Accounts.enqueue (accounts : Accounts writer settled [])
    (handed : after.handed = writer.handed + 1) (reports : after.reports = writer.reports)
    (written : after.written = writer.written ++ [.log writer.handed])
    (freed : after.freed = writer.freed)
    (dropped : after.droppedMessages = writer.droppedMessages) :
    Accounts after (settled ++ [.log writer.handed]) [] where
  written := by
    rw [written, accounts.written, map_append]
    rfl
  order := by
    have order := accounts.order
    rw [append_nil] at order
    rw [handed, range_succ, ← order, flatMap_append, append_nil]
    rfl
  counted := by rw [dropped, accounts.counted]
  small := forall_mem_append.mpr
    ⟨accounts.small, forall_mem_singleton.mpr (Nat.one_lt_two_pow (by decide))⟩
  buffers := by
    rw [written, freed, handed, reports, map_append, append_assoc]
    exact perm_middle.trans ((accounts.buffers.cons _).trans (obtained_handed _ _).symm)

/-- A report is enqueued and settles the pending drops. -/
theorem Accounts.report (accounts : Accounts writer settled pending)
    (handed : after.handed = writer.handed) (reports : after.reports = writer.reports + 1)
    (written : after.written = writer.written ++
      [.report writer.reports writer.droppedMessages writer.droppedStart])
    (freed : after.freed = writer.freed) (dropped : after.droppedMessages = 0) :
    Accounts after (settled ++ [.report writer.reports writer.droppedStart pending]) [] where
  written := by
    have count : Int32.ofNat pending.length = writer.droppedMessages := by
      apply toInt_inj.mp
      have upper := writer.droppedMessages.toInt_lt
      have counted := accounts.counted
      rw [toInt_ofNat_of_lt (by omega), counted]
    rw [written, accounts.written, map_append, map_singleton, Settled.entry, count]
  order := by
    rw [handed, ← accounts.order]
    simp [Settled.numbers]
  counted := by
    rw [dropped]
    rfl
  small := by
    refine forall_mem_append.mpr ⟨accounts.small, forall_mem_singleton.mpr ?_⟩
    have upper := writer.droppedMessages.toInt_lt
    have counted := accounts.counted
    simp only [Settled.numbers]
    omega
  buffers := by
    rw [written, freed, handed, reports, map_append, append_assoc]
    exact perm_middle.trans ((accounts.buffers.cons _).trans (obtained_reports _ _).symm)

/-- A report that the queue has no room for only costs its buffer. -/
theorem Accounts.reportFails (accounts : Accounts writer settled pending)
    (handed : after.handed = writer.handed) (reports : after.reports = writer.reports + 1)
    (written : after.written = writer.written)
    (freed : after.freed = writer.freed ++ [.report writer.reports])
    (dropped : after.droppedMessages = writer.droppedMessages) :
    Accounts after settled pending where
  written := written.trans accounts.written
  order := by rw [handed, accounts.order]
  counted := by rw [dropped, accounts.counted]
  small := accounts.small
  buffers := by
    rw [written, freed, handed, reports, ← append_assoc]
    exact (perm_append_singleton _ _).trans
      ((accounts.buffers.cons _).trans (obtained_reports _ _).symm)

/-- The newest message is enqueued or becomes the first of the pending drops. -/
theorem Accounts.writeNewest (accounts : Accounts writer settled []) (call : Call) :
    ∃ later pending,
      Accounts ({ writer with handed := writer.handed + 1 }.writeNewest writer.handed call)
        later pending := by
  have none : writer.droppedMessages = 0 := toInt_inj.mp accounts.counted
  cases fits : call.fits with
  | true =>
    refine ⟨_, _, accounts.enqueue ?_ ?_ ?_ ?_ ?_⟩ <;>
      simp [Writer.writeNewest, Writer.writeMessage, fits]
  | false =>
    have room : writer.droppedMessages ≠ .maxValue := by
      rw [none]
      decide
    refine ⟨_, _, accounts.drop room ?_ ?_ ?_ ?_ ?_⟩ <;>
      simp [Writer.writeNewest, Writer.writeMessage, fits, none, Entry.buffer]

/-- One call of `Write` keeps the accounts. -/
theorem Accounts.write (accounts : Accounts writer settled pending)
    (room : writer.droppedMessages ≠ Int32.maxValue) (call : Call) :
    ∃ later dropped, Accounts (writer.write call) later dropped := by
  by_cases dropping : writer.droppedMessages > 0
  · by_cases soon : (call.time - writer.backoffStart).lt kDropBackoff = true
    · refine ⟨_, _, accounts.drop room ?_ ?_ ?_ ?_ ?_⟩ <;>
        simp [Writer.write, dropping, soon]
    · cases reportFits : call.reportFits with
      | true =>
        have reported : Accounts { writer with
            reports := writer.reports + 1
            written := writer.written ++
              [.report _ _ _]
            droppedMessages := 0 } _ [] := accounts.report rfl rfl rfl rfl rfl
        obtain ⟨later, dropped, accounted⟩ := reported.writeNewest call
        refine ⟨later, dropped, ?_⟩
        simpa [Writer.write, dropping, soon, reportFits, Writer.writeMessage] using accounted
      | false =>
        have failed : Accounts { writer with
            reports := writer.reports + 1
            freed := writer.freed ++ [.report _] } settled pending :=
          accounts.reportFails rfl rfl rfl rfl rfl
        refine ⟨_, _, failed.drop room ?_ ?_ ?_ ?_ ?_⟩ <;>
          simp [Writer.write, dropping, soon, reportFits, Writer.writeMessage, Entry.buffer]
  · have nothing : pending = [] := by
      have counted := accounts.counted
      rw [gt_iff_lt, lt_iff_toInt_lt, toInt_zero] at dropping
      exact length_eq_zero_iff.mp (by omega)
    rw [nothing] at accounts
    obtain ⟨later, dropped, accounted⟩ := accounts.writeNewest call
    refine ⟨later, dropped, ?_⟩
    simpa [Writer.write, dropping] using accounted

end Steps

/-- The count of dropped messages can still be counted up before each of the calls. -/
def Steady (writer : Writer) : List Call → Prop
  | [] => True
  | call :: later =>
    writer.droppedMessages ≠ Int32.maxValue ∧ Steady (writer.write call) later

variable {pending : List Nat} {settled : List Settled} {writer : Writer}

/-- Any number of calls keep the accounts. -/
theorem Accounts.writes (accounts : Accounts writer settled pending) (calls : List Call)
    (steady : Steady writer calls) :
    ∃ later dropped, Accounts (writer.writes calls) later dropped := by
  induction calls generalizing writer settled pending with
  | nil => exact ⟨settled, pending, accounts⟩
  | cons call rest ih =>
    obtain ⟨room, others⟩ := steady
    obtain ⟨later, dropped, accounted⟩ := accounts.write room call
    exact ih accounted others

theorem accounts_start : Accounts {} [] [] where
  written := rfl
  order := rfl
  counted := rfl
  small := by simp
  buffers := .refl _

def Entry.isLog : Entry → Bool
  | .log _ => true
  | .report _ _ _ => false

/-- The number in a report. -/
def Entry.count : Entry → Int
  | .log _ => 0
  | .report _ count _ => count.toInt

/-- An entry stands for as many messages as it settles. -/
theorem Settled.length_numbers {item : Settled} (short : item.numbers.length < 2 ^ 31) :
    (item.numbers.length : Int) = (if item.entry.isLog then 1 else 0 : Nat) + item.entry.count := by
  cases item with
  | log number => rfl
  | report number start dropped =>
    have count : (Int32.ofNat _).toInt = dropped.length :=
      toInt_ofNat_of_lt short
    simp [Settled.numbers, Settled.entry, Entry.isLog, Entry.count, count]

/-- The accounts balance. -/
theorem Accounts.balance (accounts : Accounts writer settled pending) :
    (writer.handed : Int) = writer.written.countP Entry.isLog +
      (writer.written.map Entry.count).sum + writer.droppedMessages.toInt := by
  have total := congrArg List.length accounts.order
  rw [length_range, length_append, length_flatMap] at total
  have entries : ∀ items : List Settled, (∀ item ∈ items, item.numbers.length < 2 ^ 31) →
      ((items.map Settled.entry).countP Entry.isLog : Int) +
        ((items.map Settled.entry).map Entry.count).sum =
        ((items.map fun item => item.numbers.length).sum : Nat) := by
    intro items small
    induction items with
    | nil => rfl
    | cons item rest ih =>
      have short := small item mem_cons_self
      have others := ih fun other member =>
        small other (mem_cons_of_mem _ member)
      have first := Settled.length_numbers short
      simp only [map_cons, sum_cons, countP_cons]
      omega
  have balance := entries settled accounts.small
  rw [← accounts.written] at balance
  rw [balance, accounts.counted, ← total]
  rfl

theorem nodup_obtained (handed reports : Nat) : (obtained handed reports).Nodup := by
  rw [obtained, nodup_append]
  refine ⟨.map (fun _ _ same => Buffer.log.inj same) nodup_range,
    .map (fun _ _ same => Buffer.report.inj same) nodup_range, ?_⟩
  intro log isLog report isReport same
  obtain ⟨_, _, rfl⟩ := mem_map.mp isLog
  obtain ⟨_, _, rfl⟩ := mem_map.mp isReport
  cases same

/-- In every run in which the count of dropped messages does not leave its `int`, the
messages handed to `Write` are those enqueued, those in the reports and those still
counted. The entries of the queue settle them in their order, each report as many as it
says, and every buffer obtained was enqueued or freed exactly once.

Proof: by induction on the calls, what was enqueued, with every report taken for the
messages it counts, and the messages dropped since are all messages in order (`Accounts`). -/
theorem drops_are_accounted (calls : List Call) (steady : Steady {} calls) (writer : Writer)
    (isWriter : writer = Writer.writes {} calls) :
    (writer.handed : Int) = writer.written.countP Entry.isLog +
        (writer.written.map Entry.count).sum + writer.droppedMessages.toInt ∧
      (∃ (settled : List Settled) (pending : List Nat),
        writer.written = settled.map Settled.entry ∧
        (∀ number start dropped, .report number start dropped ∈ settled →
          (Int32.ofNat dropped.length).toInt = dropped.length) ∧
        settled.flatMap Settled.numbers ++ pending = List.range writer.handed ∧
        writer.droppedMessages.toInt = pending.length) ∧
      (writer.written.map Entry.buffer ++ writer.freed).Perm
        (obtained writer.handed writer.reports) ∧
      (writer.written.map Entry.buffer ++ writer.freed).Nodup := by
  obtain ⟨settled, pending, accounts⟩ := accounts_start.writes calls steady
  rw [← isWriter] at accounts
  refine ⟨accounts.balance, ⟨settled, pending, accounts.written, ?_, accounts.order,
    accounts.counted⟩, accounts.buffers, accounts.buffers.nodup_iff.mpr (nodup_obtained _ _)⟩
  intro number start dropped member
  exact toInt_ofNat_of_lt (accounts.small _ member)

/-- A message is written, two are dropped, and a second later they are reported. -/
def busy : List Call :=
  [⟨⟨5, 0⟩, false, true⟩, ⟨⟨5, 1⟩, false, false⟩, ⟨⟨5, 2⟩, true, true⟩, ⟨⟨6, 0⟩, true, true⟩]

theorem drops_are_accounted_busy : Steady {} busy ∧
    (Writer.writes {} busy).written = [.log 0, .report 0 2 ⟨5, 1⟩, .log 3] ∧
    ((Writer.writes {} busy).handed : Int) = 2 + 2 + 0 := by
  have steady : Steady {} busy := ⟨by decide, by decide, by decide, by decide, trivial⟩
  refine ⟨steady, by decide, ?_⟩
  exact (drops_are_accounted busy steady _ rfl).1

/-- A message for a full queue. -/
def lost : Call := ⟨Time.kZero, false, false⟩

theorem writes_lost (number : Nat) (few : number ≤ 2 ^ 31) :
    Writer.writes {} (List.replicate number lost) =
      { droppedMessages := Int32.ofNat number
        handed := number
        freed := (List.range number).map .log } := by
  induction number with
  | zero => rfl
  | succ number ih =>
    have before := ih (by omega)
    rw [Writer.writes] at before
    rw [Writer.writes, replicate_succ', foldl_append, before, foldl_cons,
      range_succ, map_append, ofNat_add]
    cases number with
    | zero => rfl
    | succ number =>
      have dropping : Int32.ofNat (number + 1) > 0 := by
        rw [gt_iff_lt, lt_iff_toInt_lt, toInt_zero, toInt_ofNat_of_lt (by omega)]
        omega
      have soon : (lost.time - .kZero).lt kDropBackoff = true := by decide
      simp only [Writer.write, dropping, if_true, soon]
      rfl

/-- After 2^31 messages for a full queue the count is negative. -/
theorem drop_count_wraps :
    (Writer.writes {} (List.replicate (2 ^ 31) lost)).handed = 2 ^ 31 ∧
    (Writer.writes {} (List.replicate (2 ^ 31) lost)).written = [] ∧
    (Writer.writes {} (List.replicate (2 ^ 31) lost)).droppedMessages.toInt = -2 ^ 31 := by
  rw [writes_lost _ (Nat.le_refl _)]
  exact ⟨rfl, rfl, by decide⟩

end Miranda.Logging
