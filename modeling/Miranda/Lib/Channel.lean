import Mathlib.Data.List.Basic

/-!
# Append-only channels read by index

A channel is the list of every message sent on it. A reader keeps how many messages
it has fetched or skipped and the last message it fetched. The results say what a
fetch changes: the messages before the reader's index grow by what it skipped and what
it fetched, and the messages from the index on shrink by as much. Message lifetimes
and bounded buffers are not modelled here.
-/

namespace Miranda.Channel

open List

variable {α : Type*}

/-- One side's view of a channel. -/
structure Reader (α : Type*) where
  index : Nat := 0
  message : Option α := none
  deriving DecidableEq

namespace Reader

/-- The next message, if there is one the reader has not fetched. -/
def fetchNext (sent : List α) (reader : Reader α) : Option (Reader α) :=
  (sent[reader.index]?).map fun message => ⟨reader.index + 1, some message⟩

/-- The last message sent, if the reader has not fetched it. -/
def fetchLatest (sent : List α) (reader : Reader α) : Option (Reader α) :=
  if reader.index < sent.length then some ⟨sent.length, sent.getLast?⟩ else none

/-- The reader is inside the channel and holds the last message before its index. -/
structure InStep (sent : List α) (reader : Reader α) : Prop where
  inside : reader.index ≤ sent.length
  message : reader.message = (sent.take reader.index).getLast?

/-- What a fetch does: it skips some messages and takes the one after them. -/
structure Fetched (sent : List α) (before : Reader α) (skipped : List α) (fetched : α)
    (after : Reader α) : Prop where
  inside : after.index ≤ sent.length
  advances : before.index < after.index
  message : after.message = some fetched
  unread : sent.drop before.index = skipped ++ fetched :: sent.drop after.index
  read : sent.take after.index = sent.take before.index ++ (skipped ++ [fetched])

variable {sent : List α} {before after : Reader α} {skipped : List α} {message : α}

theorem inStep_start (sent : List α) : InStep sent {} :=
  ⟨Nat.zero_le _, rfl⟩

/-- Sending changes nothing before a reader's index. -/
theorem InStep.take_append (reading : InStep sent before) (more : List α) :
    (sent ++ more).take before.index = sent.take before.index :=
  take_append_of_le_length reading.inside

theorem InStep.drop_append (reading : InStep sent before) (more : List α) :
    (sent ++ more).drop before.index = sent.drop before.index ++ more :=
  drop_append_of_le_length reading.inside

theorem InStep.append (reading : InStep sent before) (more : List α) :
    InStep (sent ++ more) before where
  inside := by
    have inside := reading.inside
    rw [length_append]
    omega
  message := by rw [reading.take_append, reading.message]

theorem Fetched.inStep (fetched : Fetched sent before skipped message after) :
    InStep sent after where
  inside := fetched.inside
  message := by
    rw [fetched.message, fetched.read, ← append_assoc, getLast?_concat]

theorem fetchNext_fetched (taken : before.fetchNext sent = some after) :
    ∃ message, Fetched sent before [] message after := by
  obtain ⟨message, found, rfl⟩ := Option.map_eq_some_iff.mp taken
  obtain ⟨inside, rfl⟩ := List.getElem?_eq_some_iff.mp found
  refine ⟨_, inside, Nat.lt_succ_self _, rfl, ?_, ?_⟩
  · exact drop_eq_getElem_cons inside
  · exact take_succ_eq_append_getElem inside

theorem fetchLatest_fetched (taken : before.fetchLatest sent = some after) :
    ∃ skipped message, Fetched sent before skipped message after := by
  unfold fetchLatest at taken
  split at taken
  · next inside =>
    cases taken
    have nonempty : sent.drop before.index ≠ [] := by
      intro empty
      have := drop_eq_nil_iff.mp empty
      omega
    have last : sent.getLast? = some ((sent.drop _).getLast nonempty) := by
      rw [getLast_drop, ← getLast?_eq_some_getLast]
    refine ⟨(sent.drop before.index).dropLast, (sent.drop _).getLast nonempty,
      Nat.le_refl _, inside, last, ?_, ?_⟩
    · rw [drop_length, dropLast_append_getLast]
    · rw [dropLast_append_getLast, take_length, take_append_drop]
  · cases taken

/-- Looking for the latest message leaves the reader with it, whether it was new or not. -/
theorem InStep.latest (reading : InStep sent before) :
    InStep sent ((before.fetchLatest sent).getD before) ∧
      ((before.fetchLatest sent).getD before).message = sent.getLast? := by
  cases taken : before.fetchLatest sent with
  | some after =>
    obtain ⟨skipped, message, fetched⟩ := fetchLatest_fetched taken
    unfold fetchLatest at taken
    split at taken
    · cases taken
      exact ⟨fetched.inStep, rfl⟩
    · cases taken
  | none =>
    have inside := reading.inside
    have everything : sent.length ≤ before.index := by
      by_contra less
      rw [fetchLatest, if_pos (Nat.lt_of_not_le less)] at taken
      cases taken
    have message := reading.message
    rw [take_of_length_le everything] at message
    exact ⟨reading, message⟩

end Reader

end Miranda.Channel
