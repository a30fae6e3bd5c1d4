import Mathlib.Logic.Function.Basic
import Miranda.RawQueue.Clients
import Miranda.RawQueue.Sections

/-!
# No wakeup is lost

Threads call one queue concurrently. Every critical section under `data_lock_` is
one step and runs the modelled code; a thread that has to wait parks, and it runs
its section again after it was woken. A writer that has to signal readers leaves its
section first and broadcasts in a later step, so any other step may come between.
Parked threads may also wake for no reason, and threads that are in no call may
allocate and free messages.

A parked reader waits for its own condition, which depends on the index it brought.
The flag `readable_waiting_` is all a writer looks at, and it is cleared before the
broadcast is sent.
-/

namespace Miranda.RawQueue

open Function Runs

/-- What a thread is doing: nothing, running or waiting in a call, or about to
broadcast to the readers. -/
inductive Activity where
  | idle
  | calling (call : Section)
  | signalling

structure Monitor where
  shm : Shm
  activity : ThreadId → Activity

inductive MonitorEvent where
  | call (thread : ThreadId) (call : Section)
  | enter (thread : ThreadId)
  | broadcast (thread : ThreadId)
  | wake (thread : ThreadId)
  | allocate (thread : ThreadId)
  | free (thread : ThreadId) (msg : Message)

/-- Remove a thread from the parked ones. -/
def unpark (thread : ThreadId) (q : QueueId) (shm : Shm) : Shm :=
  shm.updateQueue q fun queue =>
    { queue with
      readable := queue.readable.filter (· ≠ thread)
      writable := queue.writable.filter (· ≠ thread) }

/-- One step of one thread. -/
def MonitorStep (q : QueueId) (before : Monitor) (event : MonitorEvent) (after : Monitor) : Prop :=
  match event with
  | .call thread call =>
      before.activity thread = .idle ∧ call.Legal ∧
        after = { before with activity := update before.activity thread (.calling call) }
  | .enter thread =>
      thread ∉ (before.shm.queues q).readable ∧ thread ∉ (before.shm.queues q).writable ∧
        ∃ call, before.activity thread = .calling call ∧
          ((∃ shm, critical thread q call before.shm = .waiting shm ∧
            after = { before with shm }) ∨
          ∃ signal shm, critical thread q call before.shm = .returned signal shm ∧
            after = ⟨shm, update before.activity thread (if signal then .signalling else .idle)⟩)
  | .broadcast thread =>
      before.activity thread = .signalling ∧
        after = ⟨broadcastReadable q before.shm, update before.activity thread .idle⟩
  | .wake thread => after = { before with shm := unpark thread q before.shm }
  | .allocate thread =>
      before.activity thread = .idle ∧
        ∃ msg shm, getMessage q before.shm = .returned msg shm ∧ after = { before with shm }
  | .free thread msg =>
      before.activity thread = .idle ∧
        ∃ shm, freeMessage thread q (some msg) before.shm = .returned () shm ∧
          after = { before with shm }

/-- Some writer has left its section and has still to broadcast. -/
def Monitor.Signalling (state : Monitor) : Prop := ∃ writer, state.activity writer = .signalling

/-- What holds in every state: parked readers are in a read, and they wait rightly or
a broadcast is to come; while readers are parked the flag is set or a broadcast is to
come; writers are parked only in front of a full ring. -/
structure Covered (q : QueueId) (state : Monitor) : Prop where
  wellFormed : WellFormed state.shm
  legal : ∀ thread call, state.activity thread = .calling call → call.Legal
  readers : ∀ thread ∈ (state.shm.queues q).readable, ∃ options index,
    state.activity thread = .calling (.read options index) ∧
      ((state.shm.queues q).mustWait index = true ∨ state.Signalling)
  flagged : (state.shm.queues q).readable ≠ [] →
    (state.shm.queues q).readableWaiting = true ∨ state.Signalling
  writers : (state.shm.queues q).writable ≠ [] → (state.shm.queues q).isWritable = false

/-- Parking and waking threads leaves the memory well formed. -/
theorem WellFormed.rewait {q : QueueId} {shm : Shm} {change : RawQueue → RawQueue}
    (well : WellFormed shm)
    (waiters : ∃ readable writable readableWaiting, change (shm.queues q) =
      { shm.queues q with readable, writable, readableWaiting }) :
    WellFormed (shm.updateQueue q change) := by
  obtain ⟨readable, writable, readableWaiting, changed⟩ := waiters
  apply (RingOnly.update q shm (by rw [changed]) (by rw [changed])).wellFormed well
  rw [Shm.updateQueue_same, changed]
  exact (well.rings q).rewait _ _ _ _

section Steps

variable {q : QueueId} {state : Monitor} (covered : Covered q state)
include covered

/-- A change of memory that keeps the ring and its waiters. -/
theorem Covered.ofSameRing {shm : Shm} (well : WellFormed shm)
    (same : SameRing (state.shm.queues q) (shm.queues q)) :
    Covered q { state with shm } := by
  constructor
  · exact well
  · exact covered.legal
  · simp only
    rw [same]
    exact covered.readers
  · simp only
    rw [same]
    exact covered.flagged
  · simp only
    rw [same]
    exact covered.writers

variable {call : Section} {thread : ThreadId}

/-- Only the call of the thread that takes the step has to be looked at. -/
theorem Covered.legal_update {activity : Activity}
    (legal : ∀ call, activity = .calling call → call.Legal) :
    ∀ other call, update state.activity thread activity other = .calling call → call.Legal :=
  (Function.forall_update_iff state.activity fun _ activity =>
    ∀ call, activity = .calling call → call.Legal).mpr ⟨legal, fun other _ => covered.legal other⟩

theorem Covered.called (idle : state.activity thread = .idle) (legal : call.Legal) :
    Covered q { state with activity := update state.activity thread (.calling call) } := by
  have others : ∀ other, state.activity other ≠ .idle →
      update state.activity thread (.calling call) other = state.activity other := by
    intro other busy
    apply update_of_ne
    rintro rfl
    exact busy idle
  have signals : state.Signalling →
      Monitor.Signalling ⟨state.shm, update state.activity thread (.calling call)⟩ := by
    rintro ⟨writer, signalling⟩
    refine ⟨writer, ?_⟩
    rw [← signalling]
    apply others
    rw [signalling]
    exact nofun
  constructor
  · exact covered.wellFormed
  · apply covered.legal_update
    rintro _ ⟨rfl⟩
    exact legal
  · intro other parked
    obtain ⟨options, index, reading, waits⟩ := covered.readers other parked
    refine ⟨options, index, ?_, waits.imp_right signals⟩
    rw [← reading]
    apply others
    rw [reading]
    exact nofun
  · intro parked
    exact (covered.flagged parked).imp_right signals
  · exact covered.writers

theorem Covered.parkedReader {options : Options} {index : Option Int}
    (reading : state.activity thread = .calling (.read options index))
    (wait : (state.shm.queues q).mustWait index = true) :
    Covered q { state with shm := parkReader thread q state.shm } := by
  constructor
  · show WellFormed (parkReader thread q _)
    exact covered.wellFormed.rewait ⟨_, _, _, rfl⟩
  · exact covered.legal
  · intro other parked
    simp only [parkReader, Shm.updateQueue_same, List.mem_cons] at parked ⊢
    rcases parked with rfl | before
    · exact ⟨options, index, reading, .inl wait⟩
    · exact covered.readers other before
  · intro _
    left
    rw [parkReader, Shm.updateQueue_same]
  · intro parked
    simp only [parkReader, Shm.updateQueue_same] at parked ⊢
    exact covered.writers parked

theorem Covered.parkedWriter (thread : ThreadId)
    (full : (state.shm.queues q).isWritable = false) :
    Covered q { state with shm := parkWriter thread q state.shm } := by
  constructor
  · show WellFormed (parkWriter thread q _)
    exact covered.wellFormed.rewait ⟨_, _, _, rfl⟩
  · exact covered.legal
  · intro other parked
    simp only [parkWriter, Shm.updateQueue_same] at parked ⊢
    exact covered.readers other parked
  · intro parked
    simp only [parkWriter, Shm.updateQueue_same] at parked ⊢
    exact covered.flagged parked
  · intro _
    simp only [parkWriter, Shm.updateQueue_same]
    exact full

/-- A thread leaves its section. Whoever was about to broadcast still is, and the
thread joins them if it has to signal. -/
theorem Covered.left {signal : Bool} {after : Shm} (calls : state.activity thread = .calling call)
    (outside : thread ∉ (state.shm.queues q).readable) (spec : Left q signal state.shm after) :
    Covered q ⟨after, update state.activity thread (if signal then .signalling else .idle)⟩ := by
  have still : state.Signalling → Monitor.Signalling
      ⟨after, update state.activity thread (if signal then .signalling else .idle)⟩ := by
    rintro ⟨writer, signalling⟩
    refine ⟨writer, ?_⟩
    simp only
    rw [update_of_ne]
    · exact signalling
    · rintro rfl
      rw [calls] at signalling
      cases signalling
  have joins : signal = true → Monitor.Signalling
      ⟨after, update state.activity thread (if signal then .signalling else .idle)⟩ := by
    rintro rfl
    exact ⟨thread, by simp⟩
  constructor
  · exact spec.wellFormed
  · apply covered.legal_update
    intro otherCall otherCalls
    split at otherCalls <;> cases otherCalls
  · intro other parked
    simp only at parked ⊢
    rw [spec.readable] at parked
    obtain ⟨options, index, reading, waits⟩ := covered.readers other parked
    refine ⟨options, index, ?_, ?_⟩
    · rw [update_of_ne]
      · exact reading
      · rintro rfl
        exact outside parked
    · rcases spec.readers with ⟨_, _, monotone⟩ | handed
      · exact waits.imp (monotone index) still
      · right
        rcases covered.flagged (List.ne_nil_of_mem parked) with flag | pending
        · exact joins (handed.trans flag)
        · exact still pending
  · intro parked
    rw [spec.readable] at parked
    rcases spec.readers with ⟨_, flag, _⟩ | handed
    · rw [flag]
      exact (covered.flagged parked).imp_right still
    · right
      rcases covered.flagged parked with flag | pending
      · exact joins (handed.trans flag)
      · exact still pending
  · intro parked
    rcases spec.writers with nobody | ⟨same, keeps⟩
    · exact absurd nobody parked
    · simp only at parked ⊢
      rw [same] at parked
      have full := covered.writers parked
      rw [Bool.eq_false_iff]
      intro writable
      rw [keeps writable] at full
      cases full

/-- A broadcast leaves no reader parked. -/
theorem Covered.broadcast (thread : ThreadId) :
    Covered q ⟨broadcastReadable q state.shm, update state.activity thread .idle⟩ := by
  have nobody : ((broadcastReadable q state.shm).queues q).readable = [] := by
    rw [broadcastReadable, Shm.updateQueue_same]
  constructor
  · show WellFormed (broadcastReadable q _)
    exact covered.wellFormed.rewait ⟨_, _, _, rfl⟩
  · exact covered.legal_update nofun
  · intro other parked
    simp [nobody] at parked
  · intro parked
    exact absurd nobody parked
  · intro parked
    simp only [broadcastReadable, Shm.updateQueue_same] at parked ⊢
    exact covered.writers parked

/-- Waking one thread, for whatever reason, leaves fewer parked. -/
theorem Covered.wake (thread : ThreadId) :
    Covered q { state with shm := unpark thread q state.shm } := by
  constructor
  · show WellFormed (unpark thread q _)
    exact covered.wellFormed.rewait ⟨_, _, _, rfl⟩
  · exact covered.legal
  · intro other parked
    simp only [unpark, Shm.updateQueue_same] at parked ⊢
    exact covered.readers other (List.mem_of_mem_filter parked)
  · intro parked
    simp only [unpark, Shm.updateQueue_same] at parked ⊢
    apply covered.flagged
    intro nobody
    apply parked
    rw [nobody]
    rfl
  · intro parked
    simp only [unpark, Shm.updateQueue_same] at parked ⊢
    apply covered.writers
    intro nobody
    apply parked
    rw [nobody]
    rfl

end Steps

theorem monitorStep_covered {q : QueueId} {state next : Monitor} {event : MonitorEvent}
    (covered : Covered q state) (step : MonitorStep q state event next) : Covered q next := by
  cases event with
  | call thread call =>
    obtain ⟨idle, legal, rfl⟩ := step
    exact covered.called idle legal
  | enter thread =>
    obtain ⟨outside, _, call, calls, result⟩ := step
    have ran := critical_ran (q := q) thread covered.wellFormed (covered.legal thread call calls)
    rcases result with ⟨shm, waiting, rfl⟩ | ⟨signal, shm, returned, rfl⟩
    · rw [waiting] at ran
      cases ran with
      | parkedReader options index reads wait =>
        subst reads
        exact covered.parkedReader calls wait
      | parkedWriter full => exact covered.parkedWriter thread full
    · rw [returned] at ran
      cases ran with
      | left signal after spec => exact covered.left calls outside spec
  | broadcast thread =>
    obtain ⟨_, rfl⟩ := step
    exact covered.broadcast thread
  | wake thread =>
    obtain rfl := step
    exact covered.wake thread
  | allocate thread =>
    obtain ⟨_, msg, shm, returned, rfl⟩ := step
    have spec := getMessage_spec covered.wellFormed returned
    exact covered.ofSameRing spec.wellFormed spec.same
  | free thread msg =>
    obtain ⟨_, shm, returned, rfl⟩ := step
    have spec := release_spec covered.wellFormed returned
    exact covered.ofSameRing spec.wellFormed spec.same

theorem Fresh.covered {shm : Shm} (fresh : Fresh shm) (q : QueueId) :
    Covered q ⟨shm, fun _ => .idle⟩ := by
  have queue := fresh.queues q
  constructor
  · exact fresh.wellFormed
  · intro thread call calls
    cases calls
  · intro thread parked
    simp [queue.readable] at parked
  · intro parked
    exact absurd queue.readable parked
  · intro parked
    exact absurd queue.writable parked

/-- In every state that any interleaving of readers and writers reaches, a parked
reader still has its wait condition or a broadcast is on its way, and a parked
writer stands in front of a full ring.

Proof: by induction on the run parked readers are covered by the flag or by a broadcast
that is still to come (`Covered`). -/
theorem no_lost_wakeup {q : QueueId} {initial : Shm} {final : Monitor}
    {events : List MonitorEvent} (fresh : Fresh initial)
    (run : Run (MonitorStep q) ⟨initial, fun _ => .idle⟩ events final) :
    (∀ thread ∈ (final.shm.queues q).readable, ∃ options index,
      final.activity thread = .calling (.read options index) ∧
        ((final.shm.queues q).mustWait index = true ∨ final.Signalling)) ∧
      ∀ thread ∈ (final.shm.queues q).writable,
        ((final.shm.queues q).pending.length : Int) = (final.shm.queues q).queueLength := by
  have covered : Covered q final := run.invariant (fresh.covered q) fun _ _ _ covered step =>
    monitorStep_covered covered step
  have ok := covered.wellFormed.rings q
  constructor
  · exact covered.readers
  · intro thread parked
    have full := covered.writers (List.ne_nil_of_mem parked)
    have bound := pending_length_le ok
    have long : ¬ ((final.shm.queues q).pending.length : Int) < (final.shm.queues q).queueLength := by
      rw [← isWritable_iff ok, full]
      exact Bool.false_ne_true
    omega

/-- A reader parks on an empty queue; a writer stores and has not broadcast yet. -/
def sampleSchedule : List MonitorEvent :=
  [.call 1 (.read kBlock none), .enter 1, .allocate 0, .call 0 (.write 20 kBlock), .enter 0]

theorem sampleSchedule_run : ∃ final,
    Run (MonitorStep 0) ⟨sampleShm, fun _ => .idle⟩ sampleSchedule final ∧
      (final.shm.queues 0).readable = [1] ∧ (final.shm.queues 0).mustWait none = false ∧
      final.activity 1 = .calling (.read kBlock none) := by
  refine ⟨_, .snoc (.snoc (.snoc (.snoc (.snoc (.nil _)
    ⟨rfl, by decide, rfl⟩) ⟨by decide, by decide, _, rfl, .inl ⟨_, rfl, rfl⟩⟩)
    ⟨rfl, _, _, rfl, rfl⟩) ⟨rfl, by decide, rfl⟩)
    ⟨by decide, by decide, _, rfl, .inr ⟨_, _, rfl, rfl⟩⟩, ?_, ?_, ?_⟩
  · rfl
  · rfl
  · rfl

theorem no_lost_wakeup_sample : ∃ final,
    Run (MonitorStep 0) ⟨sampleShm, fun _ => .idle⟩ sampleSchedule final ∧
      final.Signalling := by
  obtain ⟨final, run, parked, ready, reading⟩ := sampleSchedule_run
  obtain ⟨readers, _⟩ := no_lost_wakeup sampleShm_fresh run
  obtain ⟨options, index, calls, waits⟩ := readers 1 (by rw [parked]; exact List.mem_singleton_self 1)
  rw [reading] at calls
  cases calls
  rw [ready] at waits
  exact ⟨final, run, waits.resolve_left Bool.false_ne_true⟩

end Miranda.RawQueue
