import Miranda.RawQueue.Reads

/-!
# Critical sections and the threads that wait

A call holds `data_lock_` while it runs its critical section. Here the sections are
read for what they do to waiting threads: a section parks its thread, or it is left
with the parked threads and the flag `readable_waiting_` in a state that `Left`
describes, or the process dies. `critical_ran` is the only statement about the code
of the sections that the reasoning about interleavings needs.
-/

namespace Miranda.RawQueue

open CircularBuffer

/-- A call up to its critical section: a read with or without an index, or a write. -/
inductive Section where
  | read (options : Options) (index : Option Int)
  | write (msg : Message) (options : Options)

/-- Options the public wrappers let through. -/
def Section.Legal : Section → Prop
  | .read options none => ReadLegal options
  | .read options (some _) => ReadIndexLegal options
  | .write _ options => WriteLegal options

instance Section.decidableLegal : (call : Section) → Decidable call.Legal
  | .read options none => inferInstanceAs (Decidable (ReadLegal options))
  | .read options (some _) => inferInstanceAs (Decidable (ReadIndexLegal options))
  | .write _ options => inferInstanceAs (Decidable (WriteLegal options))

/-- The critical section. It reports whether the readers have to be signalled after
the lock is released. -/
def critical (thread : ThreadId) (q : QueueId) (call : Section) (shm : Shm) : Outcome Bool :=
  match call with
  | .read options none => (doReadMessage thread q options shm).bind fun _ shm => .returned false shm
  | .read options (some index) =>
      (doReadMessageIndex thread q options index shm).bind fun _ shm => .returned false shm
  | .write msg options =>
      (writeCritical (release thread q) thread q msg options shm).bind fun result shm =>
        .returned (result.getD false) shm

/-- The fields of a queue that tell who waits. -/
structure SameWaiters (before after : RawQueue) : Prop where
  readable : after.readable = before.readable
  writable : after.writable = before.writable
  readableWaiting : after.readableWaiting = before.readableWaiting
  writableStart : after.writableStart = before.writableStart

theorem SameWaiters.refl (queue : RawQueue) : SameWaiters queue queue := ⟨rfl, rfl, rfl, rfl⟩

theorem SameWaiters.trans {first second third : RawQueue} (left : SameWaiters first second)
    (right : SameWaiters second third) : SameWaiters first third :=
  ⟨right.readable.trans left.readable, right.writable.trans left.writable,
    right.readableWaiting.trans left.readableWaiting, right.writableStart.trans left.writableStart⟩

theorem SameRing.waiters {before after : RawQueue} (same : SameRing before after) :
    SameWaiters before after := by
  rw [same]
  exact ⟨rfl, rfl, rfl, rfl⟩

theorem advanceStart_waiters (q : QueueId) (shm : Shm) :
    SameWaiters (shm.queues q) ((advanceStart q shm).queues q) := by
  rw [advanceStart, Shm.updateQueue_same]
  exact ⟨rfl, rfl, rfl, rfl⟩

variable {msg : Message} {q : QueueId} {after shm before middle : Shm} {options : Options}

/-- Emptying the ring wakes nobody.

Proof: induction on the fuel; a round moves the start and drops a message, and a
drop respects the queue it is made on. -/
theorem drainLoop_waiters {thread : ThreadId} {fuel : Nat} (well : WellFormed shm)
    (occupied : (shm.queues q).dataStart ≠ (shm.queues q).dataEnd)
    (returned : drainLoop (release thread q) q fuel shm = .returned msg after) :
    SameWaiters (shm.queues q) (after.queues q) := by
  induction fuel generalizing shm with
  | zero => cases returned
  | succ fuel ih =>
    have moved := advanceStart_waiters q shm
    rw [drainLoop_succ] at returned
    split at returned
    · injection returned with _ same
      exact same ▸ moved
    · rename_i more
      obtain ⟨_, between, released, rest⟩ := Outcome.bind_eq_returned returned
      have popped : RingOk ((advanceStart q shm).queues q) := by
        simpa [advanceStart] using .popped (well.rings q) occupied
      have wellMoved := (advanceStart_ringOnly q shm).wellFormed well popped
      have spec := release_spec wellMoved released
      have moreBetween : (between.queues q).dataStart ≠ (between.queues q).dataEnd := by
        have same := spec.same
        rw [same]
        exact more
      exact (moved.trans spec.same.waiters).trans
        (ih spec.wellFormed moreBetween rest)

/-- What a section that was left means for the parked threads. A section that stored
no message keeps the flag and makes no reader's condition false; one that stored
hands the flag over as its signal. Writers stay parked only in front of a ring that
is as full as before. -/
structure Left (q : QueueId) (signal : Bool) (before after : Shm) : Prop where
  wellFormed : WellFormed after
  readable : (after.queues q).readable = (before.queues q).readable
  readers : (signal = false ∧
      (after.queues q).readableWaiting = (before.queues q).readableWaiting ∧
      ∀ index, (before.queues q).mustWait index = true → (after.queues q).mustWait index = true) ∨
    signal = (before.queues q).readableWaiting
  writers : (after.queues q).writable = [] ∨
    ((after.queues q).writable = (before.queues q).writable ∧
      ((after.queues q).isWritable = true → (before.queues q).isWritable = true))

/-- Leaving without touching the ring. -/
theorem Left.ofSameRing (well : WellFormed after)
    (same : SameRing (before.queues q) (after.queues q)) : Left q false before after := by
  have waiters := same.waiters
  constructor
  · exact well
  · exact waiters.readable
  · left
    refine ⟨rfl, waiters.readableWaiting, ?_⟩
    intro index wait
    rw [same]
    exact wait
  · right
    refine ⟨waiters.writable, ?_⟩
    intro writable
    rw [same] at writable
    exact writable

/-- The end of a read that was ready wakes the writers if it made room. -/
theorem Left.ofRead (well : WellFormed middle) (wellBefore : WellFormed before)
    (occupied : (before.queues q).dataStart ≠ (before.queues q).dataEnd)
    (waiters : SameWaiters ((markWritable q before).queues q) (middle.queues q))
    (written : (middle.queues q).written = (before.queues q).written) :
    Left q false before (readCommonEnd q middle) := by
  have messages : (middle.queues q).messages = (before.queues q).messages := by
    rw [(well.rings q).counted, (wellBefore.rings q).counted, written]
  obtain ⟨readable, writable, flag, start⟩ := waiters
  simp only [markWritable, Shm.updateQueue_same] at readable writable flag start
  have wait : ∀ index, (before.queues q).mustWait index = true →
      (middle.queues q).mustWait index = true := by
    intro index waits
    cases index with
    | none => exact absurd ((mustWait_none _).mp waits) occupied
    | some index =>
      simp only [mustWait, Bool.or_eq_true, beq_iff_eq, decide_eq_true_eq] at waits ⊢
      rw [messages]
      exact .inr (waits.resolve_left occupied)
  have ended := readCommonEnd_ringOnly q middle
  have okEnd := (readCommonEnd_ring q middle).1 (well.rings q)
  have wellEnd := ended.wellFormed well okEnd
  unfold readCommonEnd at wellEnd ⊢
  simp only at wellEnd ⊢
  split at wellEnd
  · rename_i room
    split at wellEnd
    · rename_i signals
      rw [if_pos room, if_pos signals]
      constructor
      · exact wellEnd
      · rw [Shm.updateQueue_same]
        exact readable
      · left
        refine ⟨rfl, ?_, ?_⟩
        · rw [Shm.updateQueue_same]
          exact flag
        · intro index waits
          rw [Shm.updateQueue_same]
          exact wait index waits
      · left
        rw [Shm.updateQueue_same]
    · rename_i quiet
      rw [if_pos room, if_neg quiet]
      constructor
      · exact wellEnd
      · exact readable
      · exact .inl ⟨rfl, flag, wait⟩
      · right
        refine ⟨writable, ?_⟩
        intro _
        simpa [start] using quiet
  · rename_i full
    rw [if_neg full]
    constructor
    · exact wellEnd
    · exact readable
    · exact .inl ⟨rfl, flag, wait⟩
    · exact .inr ⟨writable, fun room => absurd room full⟩

/-- Everything running a section can come to. -/
inductive Ran (thread : ThreadId) (q : QueueId) (call : Section) (shm : Shm) :
    Outcome Bool → Prop where
  | parkedReader (options : Options) (index : Option Int) (reads : call = .read options index)
      (wait : (shm.queues q).mustWait index = true) :
      Ran thread q call shm (.waiting (parkReader thread q shm))
  | parkedWriter (full : (shm.queues q).isWritable = false) :
      Ran thread q call shm (.waiting (parkWriter thread q shm))
  | left (signal : Bool) (after : Shm) (spec : Left q signal shm after) :
      Ran thread q call shm (.returned signal after)
  | died (reason : Fatal) : Ran thread q call shm (.died reason)

/-- The middle of a read that only looks. -/
theorem Left.ofLook (msg : Message) (well : WellFormed shm)
    (occupied : (shm.queues q).dataStart ≠ (shm.queues q).dataEnd) :
    Left q false shm
      (readCommonEnd q (incrementMessageReferenceCount msg (markWritable q shm))) := by
  have wellMarked := (markWritable_ringOnly q shm).wellFormed well (markWritable_ring (well.rings q))
  have wellLooked : WellFormed (incrementMessageReferenceCount msg (markWritable q shm)) :=
    ⟨wellMarked.flat, wellMarked.rings⟩
  apply Left.ofRead wellLooked well occupied
  · exact .refl _
  · simp [incrementMessageReferenceCount, markWritable]

theorem doReadMessage_ran (thread : ThreadId) (well : WellFormed shm) (legal : ReadLegal options) :
    Ran thread q (.read options none) shm (critical thread q (.read options none) shm) := by
  have okMarked := markWritable_ring (well.rings q)
  have wellMarked := (markWritable_ringOnly q shm).wellFormed well okMarked
  unfold critical doReadMessage
  simp only
  cases wait : (shm.queues q).mustWait none with
  | true =>
    cases block : options.has kBlock with
    | true =>
      rw [readCommonStart_parked legal wait block]
      exact .parkedReader options none rfl wait
    | false =>
      rw [readCommonStart_empty legal wait block]
      exact .left false shm (.ofSameRing well (.refl _))
  | false =>
    have occupied : (shm.queues q).dataStart ≠ (shm.queues q).dataEnd := by
      intro empty
      rw [(mustWait_none _).mpr empty] at wait
      cases wait
    have occupiedMarked : ((markWritable q shm).queues q).dataStart ≠
        ((markWritable q shm).queues q).dataEnd := by
      simpa [markWritable] using occupied
    rw [readCommonStart_ready wait]
    simp only [Outcome.bind_returned, Bool.not_true, Bool.false_eq_true, if_false]
    cases peek : options.has kPeek with
    | true =>
      cases fromEnd : options.has kFromEnd <;> exact .left false _ (.ofLook _ well occupied)
    | false =>
      cases fromEnd : options.has kFromEnd with
      | true =>
        rcases drainLoop_spec thread q _ wellMarked occupiedMarked
          (pending_le_dataLength okMarked) with
          ⟨last, after, drained, _, spec, _, written⟩ | ⟨_, _, name, died⟩
        · rw [drained]
          refine .left false _ (.ofRead spec.wellFormed well occupied ?_ ?_)
          · exact drainLoop_waiters wellMarked occupiedMarked drained
          · rw [written]
            simp [markWritable]
        · rw [died]
          exact .died _
      | false =>
        have popped : RingOk ((advanceStart q (markWritable q shm)).queues q) := by
          simpa [advanceStart] using .popped okMarked occupiedMarked
        have wellPopped := (advanceStart_ringOnly q _).wellFormed wellMarked popped
        refine .left false _ (.ofRead wellPopped well occupied ?_ ?_)
        · exact advanceStart_waiters q _
        · simp [markWritable]

theorem doReadMessageIndex_ran (thread : ThreadId) (index : Int) (well : WellFormed shm)
    (legal : ReadIndexLegal options) :
    Ran thread q (.read options (some index)) shm
      (critical thread q (.read options (some index)) shm) := by
  unfold critical doReadMessageIndex
  simp only
  cases wait : (shm.queues q).mustWait _ with
  | true =>
    cases block : options.has kBlock with
    | true =>
      rw [readCommonStart_parked legal.1 wait block]
      exact .parkedReader options _ rfl wait
    | false =>
      rw [readCommonStart_empty legal.1 wait block]
      exact .left false shm (.ofSameRing well (.refl _))
  | false =>
    have occupied := (mustWait_some wait).1
    rw [readCommonStart_ready wait]
    cases fromEnd : options.has kFromEnd <;> exact .left false _ (.ofLook _ well occupied)

/-- Storing hands the flag over and leaves the parked threads where they are. -/
theorem Left.ofStore (well : WellFormed middle)
    (room : (middle.queues q).indexAdd1 (middle.queues q).dataEnd ≠ (middle.queues q).dataStart)
    (waiters : SameWaiters (before.queues q) (middle.queues q))
    (keeps : ((storeAtEnd q msg middle).queues q).isWritable = true →
      (before.queues q).isWritable = true) :
    Left q (before.queues q).readableWaiting before (storeAtEnd q msg middle) := by
  have stored : RingOk ((storeAtEnd q msg middle).queues q) := by
    rw [storeAtEnd, Shm.updateQueue_same]
    exact .stored (well.rings q) msg room
  have only : RingOnly q middle (storeAtEnd q msg middle) := .update q middle rfl rfl
  constructor
  · exact only.wellFormed well stored
  · rw [storeAtEnd, Shm.updateQueue_same]
    exact waiters.readable
  · exact .inr rfl
  · right
    refine ⟨?_, keeps⟩
    rw [storeAtEnd, Shm.updateQueue_same]
    exact waiters.writable

/-- A full ring is full again after an eviction and a store. -/
theorem storeAtEnd_full (msg : Message) {between : Shm} (ok : RingOk (shm.queues q))
    (full : (shm.queues q).indexAdd1 (shm.queues q).dataEnd = (shm.queues q).dataStart)
    (same : SameRing (shm.queues q) (between.queues q)) :
    ((storeAtEnd q msg (advanceStart q between)).queues q).isWritable = false := by
  obtain ⟨evictedOk, head, room⟩ := advanceStart_evicted ok full same
  have long := (full_iff ok).mp full
  have stored := RingOk.stored evictedOk msg room
  have pending := pending_storeMessage evictedOk msg room
  have length : ((advanceStart q between).queues q).queueLength = (shm.queues q).queueLength := by
    rw [advanceStart, Shm.updateQueue_same, same]
  rw [storeAtEnd, Shm.updateQueue_same, Bool.eq_false_iff, ne_eq, isWritable_iff stored, pending]
  rw [head] at long
  simp only [List.length_append, List.length_cons, List.length_nil, storeMessage] at long ⊢
  omega

theorem writeCritical_ran (thread : ThreadId) (msg : Message) (well : WellFormed shm)
    (legal : WriteLegal options) :
    Ran thread q (.write msg options) shm (critical thread q (.write msg options) shm) := by
  have ok := well.rings q
  unfold critical
  simp only
  by_cases full : (shm.queues q).indexAdd1 (shm.queues q).dataEnd = (shm.queues q).dataStart
  · have notWritable : (shm.queues q).isWritable = false := by
      simpa [isWritable] using full
    rcases (writeLegal_iff options).mp legal with rfl | rfl | rfl
    · rw [writeCritical_refused full (by decide)]
      rcases release_returns thread q msg well with ⟨after, released⟩ | ⟨_, name, died⟩
      · have spec := release_spec well released
        rw [released]
        exact .left false after (.ofSameRing spec.wellFormed spec.same)
      · rw [died]
        exact .died _
    · rw [writeCritical_parked full (by decide) (by decide)]
      exact .parkedWriter notWritable
    · rcases release_returns thread q _ well with ⟨between, released⟩ | ⟨_, name, died⟩
      · have spec := release_spec well released
        obtain ⟨evictedOk, _, room⟩ := advanceStart_evicted ok full spec.same
        have wellEvicted :=
          (advanceStart_ringOnly q between).wellFormed spec.wellFormed evictedOk
        rw [writeCritical_evicted full (by decide) (by decide) ok released spec.same]
        refine .left _ _ (.ofStore wellEvicted room ?_ ?_)
        · exact spec.same.waiters.trans (advanceStart_waiters q between)
        · intro writable
          rw [storeAtEnd_full msg ok full spec.same] at writable
          cases writable
      · rw [writeCritical_died full (by decide) (by decide) died]
        exact .died _
  · rw [writeCritical_room full]
    refine .left _ _ (.ofStore well full (.refl _) ?_)
    intro _
    simpa [isWritable] using full

theorem critical_ran (thread : ThreadId) {call : Section} (well : WellFormed shm)
    (legal : call.Legal) :
    Ran thread q call shm (critical thread q call shm) := by
  cases call with
  | read options index =>
    cases index with
    | none => exact doReadMessage_ran thread well legal
    | some index => exact doReadMessageIndex_ran thread index well legal
  | write msg options => exact writeCritical_ran thread msg well legal

end Miranda.RawQueue
