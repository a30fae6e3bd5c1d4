import Miranda.RawQueue.Reads

/-!
# The queue refines a bounded first-in first-out list

Each public call is compared with the abstract operation it stands for, starting
from the list of pending messages. A write is `put` and a plain read is `take`,
with the choice among waiting, failing and evicting read off the options; all the
other calls leave the list alone. Where the abstract operation waits the call
parks its thread, and where it yields an effect the call returns with the same
reply, the same contents and the same dropped messages. A queue with a recycle
queue has one more ending: the process dies when a dropped message needs a free
message of the recycle queue and there is none.
-/

namespace Miranda.RawQueue

open CircularBuffer

/-- What a write does when the ring is full. -/
def whenFull (options : Options) : BoundedFifo.WhenFull :=
  if options.has kNonBlock then .refuse else if options.has kOverride then .evict else .wait

/-- Which message a read takes. -/
def whichEnd (options : Options) : BoundedFifo.End :=
  if options.has kFromEnd then .newest else .oldest

/-- The number of messages a queue can hold, as a natural number. -/
def room (queue : RawQueue) : Nat := queue.queueLength.toNat

/-- The references a read adds: one to the message it returns if the message stays
in the ring, none if the ring's own reference is handed over. -/
def addReference (peek : Bool) (reply : Option Message) (shm : Shm) : Shm :=
  match peek, reply with
  | true, some msg => shm.refCountAdd msg
  | _, _ => shm

theorem addReference_false (reply : Option Message) (shm : Shm) :
    addReference false reply shm = shm := by
  cases reply <;> rfl

/-- A write does what the abstract `put` does. -/
def WriteRefines (thread : ThreadId) (q : QueueId) (msg : Message) (options : Options)
    (shm : Shm) : Prop :=
  match BoundedFifo.put (shm.queues q).room (whenFull options) (shm.queues q).pending msg with
  | none => ∃ parked, writeMessage thread q msg options shm = .waiting parked ∧
      (parked.queues q).pending = (shm.queues q).pending
  | some effect =>
      (∃ after, writeMessage thread q msg options shm = .returned effect.reply after ∧
        CallSpec thread q effect.dropped shm after ∧
        (after.queues q).pending = effect.contents ∧
        (after.queues q).written =
          (shm.queues q).written ++ (if effect.reply then [msg] else [])) ∨
      (effect.dropped ≠ [] ∧ PoolOverused q shm (writeMessage thread q msg options shm))

/-- A read does what the abstract `take` does. -/
def ReadRefines (thread : ThreadId) (q : QueueId) (options : Options) (shm : Shm) : Prop :=
  match BoundedFifo.take (whichEnd options) (options.has kPeek) (options.has kBlock)
      (shm.queues q).pending with
  | none => ∃ parked, readMessage thread q options shm = .waiting parked ∧
      (parked.queues q).pending = (shm.queues q).pending
  | some effect =>
      (∃ after, readMessage thread q options shm = .returned effect.reply after ∧
        CallSpec thread q effect.dropped (addReference (options.has kPeek) effect.reply shm) after ∧
        (after.queues q).pending = effect.contents ∧
        (after.queues q).written = (shm.queues q).written) ∨
      (effect.dropped ≠ [] ∧ PoolOverused q shm (readMessage thread q options shm))

/-- An index read returns a pending message, or none, and leaves the list alone. -/
def IndexReadRefines (thread : ThreadId) (q : QueueId) (options : Options) (index : Int)
    (shm : Shm) : Prop :=
  if (shm.queues q).mustWait (some index) then
    if options.has kBlock then
      ∃ parked, readMessageIndex thread q options index shm = .waiting parked ∧
        (parked.queues q).pending = (shm.queues q).pending
    else readMessageIndex thread q options index shm = .returned (none, index) shm
  else
    ∃ msg newIndex after,
      readMessageIndex thread q options index shm = .returned (some msg, newIndex) after ∧
      msg ∈ (shm.queues q).pending ∧ 0 ≤ newIndex ∧
      CallSpec thread q [] (shm.refCountAdd msg) after ∧
      (after.queues q).pending = (shm.queues q).pending ∧
      (after.queues q).written = (shm.queues q).written

theorem room_eq {queue : RawQueue} (ok : RingOk queue) : (queue.room : Int) = queue.queueLength := by
  have positive := ok.positive
  unfold room
  omega

variable {options : Options} {shm : Shm}

theorem writeMessage_refines (thread : ThreadId) (q : QueueId) (msg : Message)
    (well : WellFormed shm) (legal : WriteLegal options) :
    WriteRefines thread q msg options shm := by
  have ok := well.rings q
  have roomEq := room_eq ok
  have fullIff := full_iff ok
  have bound := pending_length_le ok
  unfold WriteRefines BoundedFifo.put writeMessage
  rw [writeMessageWith_legal legal]
  by_cases full : (shm.queues q).indexAdd1 (shm.queues q).dataEnd = (shm.queues q).dataStart
  · rw [if_neg (by have := fullIff.mp full; omega)]
    rcases (writeLegal_iff options).mp legal with rfl | rfl | rfl
    · rw [doWriteMessage_refused full (by decide)]
      rcases release_returns thread q msg well with ⟨after, released⟩ | ⟨recycles, name, died⟩
      · have spec := release_spec well released
        have written := (Absorbed.ofSameRing spec.same).written
        exact .inl ⟨after, by rw [released]; rfl, .ofRelease well released, spec.same.pending,
          by simpa using written⟩
      · exact .inr ⟨by simp, recycles, name, by rw [died]; rfl⟩
    · rw [show whenFull kBlock = .wait from rfl]
      refine ⟨_, doWriteMessage_parked full (by decide) (by decide), ?_⟩
      rw [parkWriter, Shm.updateQueue_same]
      rfl
    · rw [show whenFull kOverride = .evict from rfl]
      have occupied := (room_after_pop ok full).2
      have head := pending_head ok occupied
      have oldestTaken : (shm.queues q).pending.take 1 = [oldest q shm] := by
        rw [head]
        rfl
      simp only [oldestTaken]
      rcases release_returns thread q _ well with
        ⟨between, released⟩ | ⟨recycles, name, died⟩
      · have spec := release_spec well released
        have written := (Absorbed.ofSameRing spec.same).written
        obtain ⟨evictedOk, evictedHead, evictedRoom⟩ := advanceStart_evicted ok full spec.same
        obtain ⟨storedOk, storedPending, storedWritten, storedLength, _⟩ :=
          appendMessage_ring msg evictedOk evictedRoom
        have stored : RingOnly q between _ :=
          (advanceStart_ringOnly q between).trans (appendMessage_ringOnly q msg _)
        have length : ((appendMessage q msg (advanceStart q between)).queues q).queueLength =
            (between.queues q).queueLength := by
          rw [storedLength]
          simp [advanceStart]
        refine .inl ⟨_, doWriteMessage_evicted full (by decide) (by decide) ok released spec.same,
          ?_, ?_, ?_⟩
        · exact .drop (.refl q shm) rfl well released
            (.ofRingOnly thread spec.wellFormed stored storedOk length)
        · rw [storedPending, evictedHead]
          rfl
        · rw [storedWritten]
          simp [advanceStart, written]
      · exact .inr ⟨by simp, recycles, name,
          doWriteMessage_died full (by decide) (by decide) died⟩
  · rw [if_pos (by omega)]
    obtain ⟨storedOk, storedPending, storedWritten, storedLength, _⟩ :=
      appendMessage_ring msg ok full
    exact .inl ⟨_, doWriteMessage_room full,
      .ofRingOnly thread well (appendMessage_ringOnly q msg shm) storedOk storedLength,
      storedPending, storedWritten⟩

section Reading

variable {thread : ThreadId} {q : QueueId} {options : Options} {shm : Shm}

/-- A read of an empty ring parks or returns nothing. -/
theorem readMessage_empty_refines (well : WellFormed shm) (legal : ReadLegal options)
    (empty : (shm.queues q).dataStart = (shm.queues q).dataEnd) :
    ReadRefines thread q options shm := by
  have ok := well.rings q
  have wait := (mustWait_none _).mpr empty
  unfold ReadRefines BoundedFifo.take readMessage doReadMessage
  rw [checkReadOptions_legal legal, if_pos ((pending_eq_nil ok).mpr empty)]
  cases block : options.has kBlock with
  | true =>
    rw [readCommonStart_parked legal wait block]
    refine ⟨_, rfl, ?_⟩
    simp only [parkReader, Shm.updateQueue_same]
    rfl
  | false =>
    rw [readCommonStart_empty legal wait block]
    refine .inl ⟨shm, rfl, ?_, rfl, rfl⟩
    have unchanged : addReference (options.has kPeek) none shm = shm := by
      cases options.has kPeek <;> rfl
    simp only [unchanged]
    exact .ofRingOnly thread well (.refl q shm) ok rfl

/-- A read of a ring with messages goes on once the room is noted. -/
theorem readMessage_ready (legal : ReadLegal options)
    (occupied : (shm.queues q).dataStart ≠ (shm.queues q).dataEnd) :
    let marked := markWritable q shm
    let queue := marked.queues q
    readMessage thread q options shm =
      if options.has kFromEnd then
        if options.has kPeek then
          .returned (some (queue.data queue.lastMessageIndex)) (readCommonEnd q
            (incrementMessageReferenceCount (queue.data queue.lastMessageIndex) marked))
        else
          (drainLoop (release thread q) q queue.dataLength.toNat marked).bind fun msg shm =>
            .returned (some msg) (readCommonEnd q shm)
      else if options.has kPeek then
        .returned (some (queue.data queue.dataStart)) (readCommonEnd q
          (incrementMessageReferenceCount (queue.data queue.dataStart) marked))
      else
        .returned (some (queue.data queue.dataStart)) (readCommonEnd q (advanceStart q marked)) := by
  have ready : (shm.queues q).mustWait none = false := by
    simpa using fun wait => occupied ((mustWait_none _).mp wait)
  unfold readMessage doReadMessage
  rw [checkReadOptions_legal legal, readCommonStart_ready ready]
  rfl

theorem markWritable_occupied (occupied : (shm.queues q).dataStart ≠ (shm.queues q).dataEnd) :
    ((markWritable q shm).queues q).dataStart ≠ ((markWritable q shm).queues q).dataEnd := by
  simpa [markWritable] using occupied

/-- The messages at the two ends of the ring, as a read finds them. -/
theorem markWritable_ends (well : WellFormed shm)
    (occupied : (shm.queues q).dataStart ≠ (shm.queues q).dataEnd) :
    let queue := (markWritable q shm).queues q
    (shm.queues q).pending.head? = some (queue.data queue.dataStart) ∧
      (shm.queues q).pending.getLast? = some (queue.data queue.lastMessageIndex) := by
  have ok := markWritable_ring (well.rings q)
  have still := markWritable_occupied occupied
  rw [← markWritable_pending q shm]
  exact ⟨pending_head? ok still, pending_last ok still⟩

theorem markWritable_frame (q : QueueId) (shm : Shm) :
    ((markWritable q shm).queues q).queueLength = (shm.queues q).queueLength ∧
      ((markWritable q shm).queues q).written = (shm.queues q).written := by
  simp [markWritable]

section Occupied

variable (well : WellFormed shm) (legal : ReadLegal options)
  (occupied : (shm.queues q).dataStart ≠ (shm.queues q).dataEnd)
include well legal occupied

/-- Peeking returns the message at the chosen end and adds a reference to it. -/
theorem readMessage_peek_refines
    (peek : options.has kPeek = true) : ReadRefines thread q options shm := by
  obtain ⟨head, last⟩ := markWritable_ends well occupied
  unfold ReadRefines BoundedFifo.take
  rw [if_neg (fun nil => occupied ((pending_eq_nil (well.rings q)).mp nil)),
    readMessage_ready legal occupied]
  cases fromEnd : options.has kFromEnd with
  | true =>
    simp only [if_true, whichEnd, fromEnd, peek]
    rw [last]
    obtain ⟨spec, pending, written⟩ := CallSpec.looked thread
      _ well
    exact .inl ⟨_, rfl, spec, pending, written⟩
  | false =>
    simp only [if_true, whichEnd, fromEnd, peek, Bool.false_eq_true, if_false]
    rw [head]
    obtain ⟨spec, pending, written⟩ := CallSpec.looked thread
      _ well
    exact .inl ⟨_, rfl, spec, pending, written⟩

/-- Taking the newest message drains the ring and drops all others. -/
theorem readMessage_newest_refines
    (peek : options.has kPeek = false) (fromEnd : options.has kFromEnd = true) :
    ReadRefines thread q options shm := by
  have okMarked := markWritable_ring (well.rings q)
  have marked := markWritable_ringOnly q shm
  obtain ⟨lengthMarked, writtenMarked⟩ := markWritable_frame q shm
  unfold ReadRefines BoundedFifo.take
  rw [if_neg (fun nil => occupied ((pending_eq_nil (well.rings q)).mp nil)),
    readMessage_ready legal occupied]
  simp only [if_true, whichEnd, fromEnd, peek, Bool.false_eq_true, if_false]
  rcases drainLoop_spec thread q _ (marked.wellFormed well okMarked)
      (markWritable_occupied occupied) (pending_le_dataLength okMarked) with
    ⟨last, after, drained, isLast, spec, nothing, written⟩ | ⟨drops, recycles, name, died⟩
  · rw [markWritable_pending q shm] at isLast spec
    obtain ⟨okEnd, pendingEnd, writtenEnd, lengthEnd⟩ := readCommonEnd_ring q after
    refine .inl ⟨readCommonEnd q after, ?_, ?_, ?_, ?_⟩
    · rw [drained, Outcome.bind_returned, isLast]
    · exact (CallSpec.after marked lengthMarked spec).then (readCommonEnd_ringOnly q after)
        (okEnd (spec.wellFormed.rings q)) lengthEnd
    · rw [pendingEnd, nothing]
    · rw [writtenEnd, written, writtenMarked]
  · rw [markWritable_pending q shm] at drops
    refine .inr ⟨drops, ?_, name, by rw [died]; rfl⟩
    rw [← marked.recycle]
    exact recycles

/-- Taking the oldest message hands the ring's reference over. -/
theorem readMessage_oldest_refines
    (peek : options.has kPeek = false) (fromEnd : options.has kFromEnd = false) :
    ReadRefines thread q options shm := by
  have okMarked := markWritable_ring (well.rings q)
  have still := markWritable_occupied occupied
  have marked := markWritable_ringOnly q shm
  have only := advanceStart_ringOnly q (markWritable q shm)
  obtain ⟨lengthMarked, writtenMarked⟩ := markWritable_frame q shm
  have okAdvanced : RingOk ((advanceStart q (markWritable q shm)).queues q) := by
    simpa [advanceStart] using .popped okMarked still
  obtain ⟨okEnd, pendingEnd, writtenEnd, lengthEnd⟩ :=
    readCommonEnd_ring q _
  unfold ReadRefines BoundedFifo.take
  rw [if_neg (fun nil => occupied ((pending_eq_nil (well.rings q)).mp nil)),
    readMessage_ready legal occupied]
  simp only [whichEnd, fromEnd, peek, Bool.false_eq_true, if_false, addReference_false]
  refine .inl ⟨readCommonEnd q (advanceStart q (markWritable q shm)), ?_, ?_, ?_, ?_⟩
  · rw [(markWritable_ends well occupied).1]
  · exact .ofRingOnly thread well
      ((marked.trans only).trans (readCommonEnd_ringOnly q _)) (okEnd okAdvanced)
      (by rw [lengthEnd]; simpa [advanceStart] using lengthMarked)
  · have head := pending_head okMarked still
    rw [pendingEnd, ← markWritable_pending q shm, head]
    simp [advanceStart]
  · rw [writtenEnd]
    simpa [advanceStart] using writtenMarked

end Occupied

theorem readMessage_refines (thread : ThreadId) (q : QueueId) {options : Options} {shm : Shm}
    (well : WellFormed shm) (legal : ReadLegal options) : ReadRefines thread q options shm := by
  by_cases empty : (shm.queues q).dataStart = (shm.queues q).dataEnd
  · exact readMessage_empty_refines well legal empty
  · cases peek : options.has kPeek with
    | true => exact readMessage_peek_refines well legal empty peek
    | false =>
      cases fromEnd : options.has kFromEnd with
      | true => exact readMessage_newest_refines well legal empty peek fromEnd
      | false => exact readMessage_oldest_refines well legal empty peek fromEnd

end Reading

theorem readMessageIndex_refines (thread : ThreadId) (q : QueueId) {index : Int}
    (well : WellFormed shm) (legal : ReadIndexLegal options) (start : 0 ≤ index) :
    IndexReadRefines thread q options index shm := by
  unfold IndexReadRefines
  split
  · rename_i wait
    split
    · rename_i block
      refine ⟨_, readMessageIndex_parked legal wait block, ?_⟩
      simp only [parkReader, Shm.updateQueue_same]
      rfl
    · rename_i nonBlock
      exact readMessageIndex_empty legal wait (by simpa using nonBlock)
  · rename_i ready
    obtain ⟨offset, msg, newIndex, after, returned, reply, spec, pending, written⟩ :=
      readMessageIndex_returned thread well legal (by simpa using ready) start
    obtain ⟨_, unread⟩ := mustWait_some (by simpa using ready)
    exact ⟨msg, newIndex, after, returned, List.mem_of_getElem? reply.found,
      start.trans (reply.forward unread), spec, pending, written⟩

end Miranda.RawQueue
