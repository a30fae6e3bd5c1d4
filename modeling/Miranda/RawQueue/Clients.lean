import Miranda.RawQueue.Fifo

/-!
# Runs of clients

Clients make whole calls, one after another, on any of the queues. A run starts
from freshly constructed queues, some of which may have been joined to a recycle
queue, and every one of its calls has options that the public wrappers accept and
returns. Calls that would park are simply not taken until they can proceed.
-/

namespace Miranda.RawQueue

open CircularBuffer Runs

/-- The public calls. The index of a `readMessageIndex` is the caller's variable. -/
inductive Call where
  | getMessage
  | writeMessage (msg : Message) (options : Options)
  | readMessage (options : Options)
  | readMessageIndex (options : Options) (index : Int)
  | freeMessage (msg : Option Message)
deriving DecidableEq

/-- What a call returned. An index read also returns the caller's new index. -/
inductive Reply where
  | got (msg : Message)
  | written (accepted : Bool)
  | read (msg : Option Message)
  | readIndex (msg : Option Message) (index : Int)
  | freed
deriving DecidableEq

def Outcome.map {α β : Type} (convert : α → β) (outcome : Outcome α) : Outcome β :=
  outcome.bind fun value shm => .returned (convert value) shm

def perform (thread : ThreadId) (q : QueueId) (call : Call) (shm : Shm) : Outcome Reply :=
  match call with
  | .getMessage => (getMessage q shm).map .got
  | .writeMessage msg options => (writeMessage thread q msg options shm).map .written
  | .readMessage options => (readMessage thread q options shm).map .read
  | .readMessageIndex options index =>
      (readMessageIndex thread q options index shm).map fun reply => .readIndex reply.1 reply.2
  | .freeMessage msg => (freeMessage thread q msg shm).map fun _ => .freed

/-- Options the wrappers accept, and an index that started at zero. -/
def Call.Legal : Call → Prop
  | .getMessage => True
  | .writeMessage _ options => WriteLegal options
  | .readMessage options => ReadLegal options
  | .readMessageIndex options index => ReadIndexLegal options ∧ 0 ≤ index
  | .freeMessage _ => True

instance : (call : Call) → Decidable call.Legal
  | .getMessage => inferInstanceAs (Decidable True)
  | .writeMessage _ options => inferInstanceAs (Decidable (WriteLegal options))
  | .readMessage options => inferInstanceAs (Decidable (ReadLegal options))
  | .readMessageIndex options index =>
      inferInstanceAs (Decidable (ReadIndexLegal options ∧ 0 ≤ index))
  | .freeMessage _ => inferInstanceAs (Decidable True)

structure Event where
  thread : ThreadId
  queue : QueueId
  call : Call
  reply : Reply

/-- One legal call that returns. -/
def Step (shm : Shm) (event : Event) (after : Shm) : Prop :=
  event.call.Legal ∧
    perform event.thread event.queue event.call shm = .returned event.reply after

/-- The state of a queue that the constructor has just built. -/
structure FreshQueue (queue : RawQueue) : Prop where
  positive : 1 ≤ queue.queueLength
  capacity : queue.dataLength = queue.queueLength + 1
  dataStart : queue.dataStart = 0
  dataEnd : queue.dataEnd = 0
  messages : queue.messages = 0
  written : queue.written = []
  readable : queue.readable = []
  writable : queue.writable = []

/-- Freshly constructed queues. Joining a queue to a recycle queue sets one
pointer; the recycle queue itself is fetched without one. -/
structure Fresh (shm : Shm) : Prop where
  queues : ∀ q, FreshQueue (shm.queues q)
  flat : ∀ q recycle, (shm.queues q).recycle = some recycle →
    (shm.queues recycle).recycle = none

variable {q : QueueId} {after shm : Shm} {event : Event} {before : Shm} {options : Options}
  {thread : ThreadId} {events : List Event} {final initial : Shm}

theorem FreshQueue.pending {queue : RawQueue} (fresh : FreshQueue queue) :
    queue.pending = [] := by
  simp [RawQueue.pending, window, fresh.dataStart, fresh.dataEnd, distance, contents]

theorem Fresh.wellFormed (fresh : Fresh shm) : WellFormed shm := by
  refine ⟨fresh.flat, ?_⟩
  intro q
  have queue := fresh.queues q
  have positive := queue.positive
  have capacity := queue.capacity
  refine ⟨positive, capacity, ?_, ?_, ?_, ?_⟩
  · rw [queue.dataStart]
    unfold Valid
    omega
  · rw [queue.dataEnd]
    unfold Valid
    omega
  · rw [queue.messages, queue.written]
    rfl
  · rw [queue.pending]
    exact List.nil_suffix

/-- How a returning call changes the history of each queue. -/
def appended (event : Event) : List Message :=
  match event.call, event.reply with
  | .writeMessage msg _, .written true => [msg]
  | _, _ => []

/-- What one step of a client preserves and how it changes the queues: its own
queue gains the message it wrote, the others what was recycled onto them. -/
structure StepSpec (event : Event) (before after : Shm) : Prop where
  wellFormed : WellFormed after
  written : (after.queues event.queue).written =
    (before.queues event.queue).written ++ appended event
  recycle : ∀ p, (after.queues p).recycle = (before.queues p).recycle
  queueLength : ∀ p, (after.queues p).queueLength = (before.queues p).queueLength
  recycled : ∀ p, p ≠ event.queue → RecycledOnto event.queue p before after

/-- A finished call of the event's queue, starting from memory with the same queues. -/
theorem StepSpec.ofCallSpec {dropped : List Message} {base : Shm}
    (sameQueues : base.queues = before.queues)
    (spec : CallSpec event.thread event.queue dropped base after)
    (written : (after.queues event.queue).written =
      (before.queues event.queue).written ++ appended event) :
    StepSpec event before after := by
  have recycled : ∀ p, p ≠ event.queue → RecycledOnto event.queue p before after := by
    intro p different
    have base := spec.recycled p different
    unfold RecycledOnto at base ⊢
    rw [← sameQueues]
    exact base
  refine ⟨spec.wellFormed, written, ?_, ?_, recycled⟩
  · intro p
    by_cases here : p = event.queue
    · rw [here, spec.recycle, sameQueues]
    · obtain ⟨_, change, _⟩ := recycled p here
      exact change.recycle
  · intro p
    by_cases here : p = event.queue
    · rw [here, spec.queueLength, sameQueues]
    · obtain ⟨_, change, _⟩ := recycled p here
      exact change.queueLength

/-- A drop or an allocation leaves the ring of its queue alone. -/
theorem StepSpec.ofSameRing (well : WellFormed after)
    (same : SameRing (before.queues event.queue) (after.queues event.queue))
    (recycled : ∀ p, RecycledOnto event.queue p before after) (nothing : appended event = []) :
    StepSpec event before after := by
  refine ⟨well, ?_, ?_, ?_, fun p _ => recycled p⟩
  · rw [nothing]
    exact (Absorbed.ofSameRing same).written
  · intro p
    obtain ⟨_, change, _⟩ := recycled p
    exact change.recycle
  · intro p
    obtain ⟨_, change, _⟩ := recycled p
    exact change.queueLength

theorem Outcome.map_eq_returned {α β : Type} {convert : α → β} {outcome : Outcome α} {value : β}
    (returned : outcome.map convert = .returned value shm) :
    ∃ original, outcome = .returned original shm ∧ convert original = value := by
  cases outcome with
  | returned original after =>
    injection returned with first second
    exact ⟨original, by rw [second], first⟩
  | waiting _ => cases returned
  | died _ => cases returned
  | unfinished => cases returned

theorem writeMessage_returned {msg : Message} {accepted : Bool} (well : WellFormed shm)
    (legal : WriteLegal options)
    (returned : writeMessage thread q msg options shm = .returned accepted after) :
    ∃ effect, BoundedFifo.put (shm.queues q).room (whenFull options) (shm.queues q).pending msg =
        some effect ∧ effect.reply = accepted ∧
      CallSpec thread q effect.dropped shm after ∧
      (after.queues q).pending = effect.contents ∧
      (after.queues q).written = (shm.queues q).written ++ (if accepted then [msg] else []) := by
  have refines := writeMessage_refines thread q msg well legal
  rw [WriteRefines, returned] at refines
  split at refines
  · obtain ⟨parked, waits, _⟩ := refines
    cases waits
  · rename_i effect computed
    rcases refines with ⟨_, ends, spec, pending, written⟩ | ⟨_, _, name, died⟩
    · cases ends
      exact ⟨effect, computed, rfl, spec, pending, written⟩
    · cases died

theorem readMessage_returned {reply : Option Message} (well : WellFormed shm)
    (legal : ReadLegal options)
    (returned : readMessage thread q options shm = .returned reply after) :
    ∃ effect, BoundedFifo.take (whichEnd options) (options.has kPeek) (options.has kBlock)
        (shm.queues q).pending = some effect ∧ effect.reply = reply ∧
      CallSpec thread q effect.dropped (addReference (options.has kPeek) reply shm) after ∧
      (after.queues q).pending = effect.contents ∧
      (after.queues q).written = (shm.queues q).written := by
  have refines := readMessage_refines thread q well legal
  rw [ReadRefines, returned] at refines
  split at refines
  · obtain ⟨parked, waits, _⟩ := refines
    cases waits
  · rename_i effect computed
    rcases refines with ⟨_, ends, spec, pending, written⟩ | ⟨_, _, name, died⟩
    · cases ends
      exact ⟨effect, computed, rfl, spec, pending, written⟩
    · cases died

/-- The two branches of a reader's call: it fails because it would have to wait and
adds no reference, or it returns a pending message. Neither changes the ring. -/
theorem reader_call {reply : Option Message} {index newIndex : Int} (well : WellFormed shm)
    (legal : ReadIndexLegal options) (start : 0 ≤ index)
    (returned : readMessageIndex thread q options index shm = .returned (reply, newIndex) after) :
    CallSpec thread q [] (addReference true reply shm) after ∧
      (after.queues q).pending = (shm.queues q).pending ∧
      (after.queues q).written = (shm.queues q).written ∧
      match reply with
      | none => newIndex = index ∧ (shm.queues q).mustWait (some index) = true
      | some msg => index < (shm.queues q).messages ∧
          ∃ offset, IndexedReply (shm.queues q) options index msg newIndex offset := by
  cases wait : (shm.queues q).mustWait _ with
  | true =>
    cases block : options.has kBlock with
    | true =>
      rw [readMessageIndex_parked legal wait block] at returned
      cases returned
    | false =>
      rw [readMessageIndex_empty legal wait block] at returned
      cases returned
      exact ⟨.ofRingOnly thread well (.refl q _) (well.rings q) rfl, rfl, rfl, rfl, rfl⟩
  | false =>
    obtain ⟨offset, msg, found, end_, ends, indexed, spec, pending, written⟩ :=
      readMessageIndex_returned thread well legal wait start
    cases returned.symm.trans ends
    exact ⟨spec, pending, written, (mustWait_some wait).2, offset, indexed⟩

theorem addReference_queues (peek : Bool) (reply : Option Message) (shm : Shm) :
    (addReference peek reply shm).queues = shm.queues := by
  cases peek <;> cases reply <;> rfl

/-- Every returning call keeps memory well formed and changes the histories as
listed. -/
theorem step_spec (well : WellFormed shm) (taken : Step shm event after) :
    StepSpec event shm after := by
  obtain ⟨legal, performed⟩ := taken
  obtain ⟨thread, q, call, reply⟩ := event
  cases call with
  | getMessage =>
    obtain ⟨header, got, _⟩ := Outcome.map_eq_returned performed
    have spec := getMessage_spec well got
    exact .ofSameRing spec.wellFormed spec.same spec.recycled rfl
  | writeMessage msg options =>
    obtain ⟨accepted, wrote, replied⟩ := Outcome.map_eq_returned performed
    obtain ⟨effect, _, _, spec, _, written⟩ := writeMessage_returned well legal wrote
    refine .ofCallSpec rfl spec ?_
    rw [written]
    subst replied
    cases accepted <;> rfl
  | readMessage options =>
    obtain ⟨msg, read, replied⟩ := Outcome.map_eq_returned performed
    obtain ⟨effect, _, _, spec, _, written⟩ := readMessage_returned well legal read
    refine .ofCallSpec (addReference_queues _ _ shm) spec ?_
    rw [written]
    exact (List.append_nil _).symm
  | readMessageIndex options index =>
    obtain ⟨⟨msg, newIndex⟩, read, replied⟩ := Outcome.map_eq_returned performed
    obtain ⟨spec, _, written, _⟩ := reader_call well legal.1 legal.2 read
    refine .ofCallSpec (addReference_queues _ _ shm) spec ?_
    rw [written]
    exact (List.append_nil _).symm
  | freeMessage msg =>
    obtain ⟨_, freed, _⟩ := Outcome.map_eq_returned performed
    cases msg with
    | none =>
      injection freed with _ same
      subst same
      exact .ofSameRing well (.refl _)
        (fun p => .ofSameRing q (.refl _)) rfl
    | some msg =>
      have spec := release_spec well freed
      exact .ofSameRing spec.wellFormed spec.same spec.recycled rfl

theorem run_wellFormed (fresh : Fresh initial) (run : Run Step initial events final) :
    WellFormed final :=
  run.invariant fresh.wellFormed fun _ _ _ well taken => (step_spec well taken).wellFormed

/-- On a queue that nobody recycles to, the history is exactly the sequence of the
accepted writes of the run. -/
theorem written_events (fresh : Fresh initial) (run : Run Step initial events final)
    (direct : ∀ p, (initial.queues p).recycle ≠ some q) :
    (final.queues q).written =
      events.flatMap fun event => if event.queue = q then appended event else [] := by
  have strengthened : (final.queues q).written =
        (events.flatMap fun event => if event.queue = q then appended event else []) ∧
      WellFormed final ∧ ∀ p, (final.queues p).recycle = (initial.queues p).recycle := by
    induction run with
    | nil => exact ⟨(fresh.queues q).written, fresh.wellFormed, fun _ => rfl⟩
    | @snoc state next events event before taken ih =>
      obtain ⟨history, well, recycle⟩ := ih
      have spec := step_spec well taken
      refine ⟨?_, spec.wellFormed, fun p => (spec.recycle p).trans (recycle p)⟩
      rw [List.flatMap_append, ← history]
      by_cases here : event.queue = q
      · have written := spec.written
        rw [here] at written
        simp [written, here]
      · obtain ⟨recycled, change, only⟩ := spec.recycled q (.symm here)
        have nothing := only (by rw [recycle]; exact direct _)
        simp [change.written, nothing, here]
  exact strengthened.1

/-- A call that cannot change the list of its queue. -/
def LeavesPending (q : QueueId) (shm : Shm) {α : Type} (outcome : Outcome α) : Prop :=
  ∀ value after, outcome = .returned value after →
    (after.queues q).pending = (shm.queues q).pending

/-- A queue for one message whose pool is the 21 headers up to `21 * q + 20`. -/
def sampleQueue (recycle : Option QueueId) (q : QueueId) : RawQueue :=
  { name := "Queue", length := 8, hash := 1, queueLength := 1, recycle
    readable := [], writable := []
    dataLength := 2, dataStart := 0, dataEnd := 0, messages := 0
    data := fun _ => 0
    freeMessages := some (21 * q + 20)
    writableStart := false, readableWaiting := false
    written := [] }

/-- Queues of length one, the first of them joined to the second as its recycle
queue. -/
def sampleShm : Shm :=
  { header := fun msg => ⟨if msg % 21 = 0 then none else some (msg - 1), 0⟩
    queues := fun q => sampleQueue (if q = 0 then some 1 else none) q }

theorem sampleShm_fresh : Fresh sampleShm := by
  refine ⟨?_, ?_⟩
  · intro q
    exact ⟨Int.le_refl 1, rfl, rfl, rfl, rfl, rfl, rfl, rfl⟩
  · intro q recycle points
    have target : recycle = 1 := by
      simp only [sampleShm, sampleQueue] at points
      split at points
      · exact (Option.some.inj points).symm
      · cases points
    subst target
    rfl

/-- Two writes to a queue of length one, the second of them overriding the first. -/
def sampleEvents : List Event :=
  [⟨0, 0, .getMessage, .got 20⟩, ⟨0, 0, .writeMessage 20 kBlock, .written true⟩,
    ⟨0, 0, .getMessage, .got 19⟩, ⟨0, 0, .writeMessage 19 kOverride, .written true⟩]

theorem sampleEvents_run : ∃ final, Run Step sampleShm sampleEvents final ∧
    (final.queues 0).pending = [19] := by
  refine ⟨_, .snoc (.snoc (.snoc (.snoc (.nil _) ⟨trivial, rfl⟩)
    ⟨by decide, rfl⟩) ⟨trivial, rfl⟩) ⟨by decide, rfl⟩, ?_⟩
  rfl

end Miranda.RawQueue
