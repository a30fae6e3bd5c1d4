import Miranda.RawQueue.Ring
import Miranda.Lib.BoundedFifo

/-!
# Dropping references

A queue without a recycle queue frees a message by pushing it on its own free
list, which always returns. A queue with a recycle queue trades: the message is
written to the recycle queue with `kOverride`, which may evict and free an older
message there, and a fresh message of the recycle queue goes to the free list
instead. The functions below are these effects as plain state transformers, and
the equations say that the modelled calls compute exactly them.

The only way for a drop not to return is an exhausted pool of the recycle queue.
-/

namespace Miranda.RawQueue

open CircularBuffer

/-- Remove a header from the free list of its queue; its count becomes one. -/
def takeFree (q : QueueId) (header : Message) (shm : Shm) : Shm :=
  (shm.updateQueue q fun queue =>
    { queue with freeMessages := (shm.header header).next }).setRefCount header 1

/-- Drop a reference on a queue that has no recycle queue. -/
def releasePlain (q : QueueId) (msg : Message) (shm : Shm) : Shm :=
  if ((shm.refCountSub msg).header msg).refCount = 0 then (shm.refCountSub msg).pushFree q msg
  else shm.refCountSub msg

/-- Move the start of the ring past its oldest message. -/
def advanceStart (q : QueueId) (shm : Shm) : Shm :=
  shm.updateQueue q fun queue => { queue with dataStart := queue.indexAdd1 queue.dataStart }

/-- Store a message at the end of the ring. -/
def storeAtEnd (q : QueueId) (msg : Message) (shm : Shm) : Shm :=
  shm.updateQueue q (storeMessage msg ((shm.queues q).indexAdd1 (shm.queues q).dataEnd))

/-- Store a message at the end of the ring and wake the readers if one waits. -/
def appendMessage (q : QueueId) (msg : Message) (shm : Shm) : Shm :=
  if (shm.queues q).readableWaiting then broadcastReadable q (storeAtEnd q msg shm)
  else storeAtEnd q msg shm

/-- The state a writer parks in. -/
def parkWriter (thread : ThreadId) (q : QueueId) (shm : Shm) : Shm :=
  shm.updateQueue q fun queue => { queue with writable := thread :: queue.writable }

/-- The message a full ring evicts next. -/
def oldest (q : QueueId) (shm : Shm) : Message := (shm.queues q).data (shm.queues q).dataStart

/-- An overriding write on a queue that has no recycle queue. -/
def overrideStore (q : QueueId) (msg : Message) (shm : Shm) : Shm :=
  if (shm.queues q).isWritable then appendMessage q msg shm
  else appendMessage q msg (advanceStart q (releasePlain q (oldest q shm) shm))

/-- Give a message to the recycle queue and keep one of its free messages. -/
def trade (q recycle : QueueId) (msg newMsg : Message) (shm : Shm) : Shm :=
  (overrideStore recycle msg ((takeFree recycle newMsg shm).refCountAdd msg)).pushFree q newMsg

variable {q : QueueId} {shm : Shm} {p : QueueId} {after before : Shm} {msg : Message}
  {thread : ThreadId} {recycle : QueueId}

theorem getMessage_some {header : Message} (available : (shm.queues q).freeMessages = some header) :
    getMessage q shm = .returned header (takeFree q header shm) := by
  simp [getMessage, available, takeFree]

theorem getMessage_none (exhausted : (shm.queues q).freeMessages = none) :
    getMessage q shm = .died (.overusedPool (shm.queues q).name) := by
  simp [getMessage, exhausted]

/-- `GetMessage` returns only with the first message of the free list. -/
theorem getMessage_returned (returned : getMessage q shm = .returned msg after) :
    (shm.queues q).freeMessages = some msg ∧ after = takeFree q msg shm := by
  cases available : (shm.queues q).freeMessages with
  | none =>
    rw [getMessage_none available] at returned
    cases returned
  | some header =>
    rw [getMessage_some available] at returned
    cases returned
    exact ⟨rfl, rfl⟩

theorem doFreeMessage_plain (thread : ThreadId) (depth : Nat) (msg : Message)
    (plain : (shm.queues q).recycle = none) :
    doFreeMessage thread (depth + 1) q msg shm = .returned () (shm.pushFree q msg) := by
  simp [doFreeMessage, plain]

theorem decrement_plain (thread : ThreadId) (depth : Nat) (msg : Message)
    (plain : (shm.queues q).recycle = none) :
    decrementMessageReferenceCount (doFreeMessage thread (depth + 1) q) msg shm =
      .returned () (releasePlain q msg shm) := by
  unfold decrementMessageReferenceCount releasePlain
  simp only
  split
  · exact doFreeMessage_plain thread depth msg plain
  · rfl

theorem releasePlain_sameRing (q : QueueId) (msg : Message) (shm : Shm) :
    SameRing (shm.queues q) ((releasePlain q msg shm).queues q) := by
  unfold releasePlain
  split
  · rw [Shm.pushFree_same]
    rfl
  · exact .refl _

theorem releasePlain_other (msg : Message) (shm : Shm) (different : p ≠ q) :
    (releasePlain q msg shm).queues p = shm.queues p := by
  unfold releasePlain
  split
  · simp [different]
  · rfl

section WriteLoop

variable {drop : Message → Shm → Outcome Unit} {thread : ThreadId} {q : QueueId}
  {msg : Message} {options : Options} {shm : Shm}

theorem writeLoop_room (fuel : Nat)
    (room : (shm.queues q).indexAdd1 (shm.queues q).dataEnd ≠ (shm.queues q).dataStart) :
    writeLoop drop thread q msg options (fuel + 1) shm =
      .returned (some ((shm.queues q).indexAdd1 (shm.queues q).dataEnd)) shm := by
  simp [writeLoop, room]

/-- A write that finds room stores at the end of the ring. -/
theorem writeCritical_room
    (room : (shm.queues q).indexAdd1 (shm.queues q).dataEnd ≠ (shm.queues q).dataStart) :
    writeCritical drop thread q msg options shm =
      .returned (some (shm.queues q).readableWaiting) (storeAtEnd q msg shm) := by
  unfold writeCritical
  rw [writeLoop_room _ room]
  rfl

/-- After the critical section the readers are woken if one waited. -/
theorem doWriteMessage_stored {before : Shm}
    (critical : writeCritical drop thread q msg options shm =
      .returned (some (before.queues q).readableWaiting) (storeAtEnd q msg before)) :
    doWriteMessage drop thread q msg options shm = .returned true (appendMessage q msg before) := by
  unfold doWriteMessage appendMessage
  rw [critical]
  cases (before.queues q).readableWaiting <;> rfl

theorem doWriteMessage_room
    (room : (shm.queues q).indexAdd1 (shm.queues q).dataEnd ≠ (shm.queues q).dataStart) :
    doWriteMessage drop thread q msg options shm = .returned true (appendMessage q msg shm) :=
  doWriteMessage_stored (writeCritical_room room)

variable {between : Shm} {reason : Fatal}

theorem advanceStart_readableWaiting (same : SameRing (shm.queues q) (between.queues q)) :
    ((advanceStart q between).queues q).readableWaiting = (shm.queues q).readableWaiting := by
  simp only [advanceStart, Shm.updateQueue_same]
  rw [same]

/-- Evicting after a drop that respected the ring removes exactly the oldest
message and leaves room for one more. -/
theorem advanceStart_evicted (ok : RingOk (shm.queues q))
    (full : (shm.queues q).indexAdd1 (shm.queues q).dataEnd = (shm.queues q).dataStart)
    (same : SameRing (shm.queues q) (between.queues q)) :
    RingOk ((advanceStart q between).queues q) ∧
      (shm.queues q).pending = oldest q shm :: ((advanceStart q between).queues q).pending ∧
      ((advanceStart q between).queues q).indexAdd1 ((advanceStart q between).queues q).dataEnd ≠
        ((advanceStart q between).queues q).dataStart := by
  obtain ⟨room, occupied⟩ := room_after_pop ok full
  have okBetween := same.ringOk ok
  have pendingBetween := same.pending
  have occupiedBetween : (between.queues q).dataStart ≠ (between.queues q).dataEnd := by
    rw [same]
    exact occupied
  have popped := RingOk.popped okBetween occupiedBetween
  have head := pending_head okBetween occupiedBetween
  simp only [advanceStart, Shm.updateQueue_same]
  refine ⟨popped, ?_, ?_⟩
  · rw [← pendingBetween, head]
    congr 1
    rw [same]
    rfl
  · rw [same]
    exact room

section Full

variable (full : (shm.queues q).indexAdd1 (shm.queues q).dataEnd = (shm.queues q).dataStart)
include full

/-- A full ring refuses a write that may not block and drops the argument. -/
theorem writeCritical_refused (nonBlock : options.has kNonBlock = true) :
    writeCritical drop thread q msg options shm =
      (drop msg shm).bind fun _ shm => .returned none shm := by
  unfold writeCritical
  simp only [writeLoop, full, ne_eq, not_true_eq_false, if_false, nonBlock, if_true]
  cases drop msg shm <;> rfl

theorem doWriteMessage_refused (nonBlock : options.has kNonBlock = true) :
    doWriteMessage drop thread q msg options shm =
      (drop msg shm).bind fun _ shm => .returned false shm := by
  unfold doWriteMessage
  rw [writeCritical_refused full nonBlock]
  cases drop msg shm <;> rfl

section

variable (block : options.has kNonBlock = false)
include block

/-- A full ring parks a blocking writer. -/
theorem writeCritical_parked (keep : options.has kOverride = false) :
    writeCritical drop thread q msg options shm = .waiting (parkWriter thread q shm) := by
  unfold writeCritical
  simp [writeLoop, full, block, keep, parkWriter]

theorem doWriteMessage_parked (keep : options.has kOverride = false) :
    doWriteMessage drop thread q msg options shm = .waiting (parkWriter thread q shm) := by
  unfold doWriteMessage
  rw [writeCritical_parked full block keep]
  rfl

variable (override : options.has kOverride = true)
include override

/-- An overriding write to a full ring drops the oldest message and goes round the
loop again. -/
theorem writeLoop_override (fuel : Nat) :
    writeLoop drop thread q msg options (fuel + 1) shm =
      (drop (oldest q shm) shm).bind fun _ shm =>
        writeLoop drop thread q msg options fuel (advanceStart q shm) := by
  rw [writeLoop]
  simp only [full, ne_eq, not_true_eq_false, if_false, block, Bool.false_eq_true, override,
    if_true]
  rfl

/-- The second round finds room, so there is no third. -/
theorem writeCritical_evicted (ok : RingOk (shm.queues q))
    (dropped : drop (oldest q shm) shm = .returned () between)
    (same : SameRing (shm.queues q) (between.queues q)) :
    writeCritical drop thread q msg options shm =
      .returned (some (shm.queues q).readableWaiting)
        (storeAtEnd q msg (advanceStart q between)) := by
  obtain ⟨fuel, long⟩ : ∃ fuel, (shm.queues q).dataLength.toNat = fuel + 1 := by
    have positive := ok.positive
    have capacity := ok.capacity
    exact ⟨(shm.queues q).dataLength.toNat - 1, by omega⟩
  obtain ⟨_, _, room⟩ := advanceStart_evicted ok full same
  rw [← advanceStart_readableWaiting same]
  unfold writeCritical
  rw [long, writeLoop_override full block override, dropped, Outcome.bind_returned,
    writeLoop_room _ room]
  rfl

theorem doWriteMessage_evicted (ok : RingOk (shm.queues q))
    (dropped : drop (oldest q shm) shm = .returned () between)
    (same : SameRing (shm.queues q) (between.queues q)) :
    doWriteMessage drop thread q msg options shm =
      .returned true (appendMessage q msg (advanceStart q between)) := by
  apply doWriteMessage_stored
  rw [advanceStart_readableWaiting same]
  exact writeCritical_evicted full block override ok dropped same

variable (dropped : drop (oldest q shm) shm = .died reason)
include dropped

/-- An overriding write whose eviction does not return does not return either. -/
theorem writeCritical_died :
    writeCritical drop thread q msg options shm = .died reason := by
  unfold writeCritical
  rw [writeLoop_override full block override, dropped]
  rfl

theorem doWriteMessage_died :
    doWriteMessage drop thread q msg options shm = .died reason := by
  unfold doWriteMessage
  rw [writeCritical_died full block override dropped]
  rfl

end

end Full

end WriteLoop

/-- How a queue changes while messages are recycled onto it: each of them is
forced in, and the queue is otherwise the same queue. -/
structure Absorbed (before after : RawQueue) (recycled : List Message) : Prop where
  queueLength : after.queueLength = before.queueLength
  recycle : after.recycle = before.recycle
  pending : after.pending =
    recycled.foldl (BoundedFifo.force before.queueLength.toNat) before.pending
  written : after.written = before.written ++ recycled

theorem Absorbed.ofSameRing {before after : RawQueue} (same : SameRing before after) :
    Absorbed before after [] := by
  have pending := same.pending
  exact ⟨by rw [same], by rw [same], by simpa using pending, by rw [same]; simp⟩

theorem Absorbed.trans {first second third : RawQueue} {left right : List Message}
    (before : Absorbed first second left) (after : Absorbed second third right) :
    Absorbed first third (left ++ right) := by
  refine ⟨after.queueLength.trans before.queueLength, after.recycle.trans before.recycle, ?_, ?_⟩
  · rw [after.pending, before.pending, before.queueLength, List.foldl_append]
  · rw [after.written, before.written, List.append_assoc]

/-- A call on `q` changes the queue `p` only by recycling messages onto it, and
only if `p` is the recycle queue of `q`. -/
def RecycledOnto (q p : QueueId) (before after : Shm) : Prop :=
  ∃ recycled, Absorbed (before.queues p) (after.queues p) recycled ∧
    ((before.queues q).recycle ≠ some p → recycled = [])

theorem RecycledOnto.ofSameRing (q : QueueId) (same : SameRing (before.queues p) (after.queues p)) :
    RecycledOnto q p before after :=
  ⟨[], .ofSameRing same, fun _ => rfl⟩

theorem RecycledOnto.trans {first second third : Shm} (left : RecycledOnto q p first second)
    (right : RecycledOnto q p second third)
    (recycle : (second.queues q).recycle = (first.queues q).recycle) :
    RecycledOnto q p first third := by
  obtain ⟨before, absorbedBefore, onlyBefore⟩ := left
  obtain ⟨after, absorbedAfter, onlyAfter⟩ := right
  refine ⟨before ++ after, absorbedBefore.trans absorbedAfter, ?_⟩
  intro elsewhere
  rw [onlyBefore elsewhere, onlyAfter (by rw [recycle]; exact elsewhere)]
  rfl

/-- Shared memory between calls: every queue has a ring in order, and a recycle
queue has no recycle queue of its own. -/
structure WellFormed (shm : Shm) : Prop where
  flat : ∀ q recycle, (shm.queues q).recycle = some recycle →
    (shm.queues recycle).recycle = none
  rings : ∀ q, RingOk (shm.queues q)

theorem WellFormed.recycle_ne (well : WellFormed shm)
    (points : (shm.queues q).recycle = some recycle) :
    q ≠ recycle := by
  rintro rfl
  cases points.symm.trans (well.flat q q points)

/-- Flatness only looks at the recycle pointers. -/
theorem WellFormed.of_queues (well : WellFormed before)
    (recycle : ∀ q, (after.queues q).recycle = (before.queues q).recycle)
    (rings : ∀ q, RingOk (after.queues q)) : WellFormed after := by
  refine ⟨?_, rings⟩
  intro q target points
  rw [recycle] at points ⊢
  exact well.flat q target points

theorem appendMessage_other (msg : Message) (shm : Shm) (different : p ≠ q) :
    (appendMessage q msg shm).queues p = shm.queues p := by
  unfold appendMessage broadcastReadable storeAtEnd
  split <;> simp [different]

/-- Waking the readers does not touch the ring. -/
theorem appendMessage_ring (msg : Message) (ok : RingOk (shm.queues q))
    (room : (shm.queues q).indexAdd1 (shm.queues q).dataEnd ≠ (shm.queues q).dataStart) :
    RingOk ((appendMessage q msg shm).queues q) ∧
      ((appendMessage q msg shm).queues q).pending = (shm.queues q).pending ++ [msg] ∧
      ((appendMessage q msg shm).queues q).written = (shm.queues q).written ++ [msg] ∧
      ((appendMessage q msg shm).queues q).queueLength = (shm.queues q).queueLength ∧
      ((appendMessage q msg shm).queues q).recycle = (shm.queues q).recycle := by
  have stored := RingOk.stored ok msg room
  have pending := pending_storeMessage ok msg room
  unfold appendMessage broadcastReadable storeAtEnd
  split
  · simp only [Shm.updateQueue_same]
    exact ⟨⟨stored.positive, stored.capacity, stored.startValid, stored.endValid,
      stored.counted, stored.newest⟩, pending, rfl, rfl, rfl⟩
  · simp only [Shm.updateQueue_same]
    exact ⟨stored, pending, rfl, rfl, rfl⟩

theorem advanceStart_other (shm : Shm) (different : p ≠ q) :
    (advanceStart q shm).queues p = shm.queues p := by
  simp [advanceStart, different]

/-- An overriding write stores its message, after an eviction if the ring is full. -/
theorem overrideStore_cases (q : QueueId) (msg : Message) (shm : Shm) :
    ((shm.queues q).indexAdd1 (shm.queues q).dataEnd ≠ (shm.queues q).dataStart ∧
        overrideStore q msg shm = appendMessage q msg shm) ∨
      (shm.queues q).indexAdd1 (shm.queues q).dataEnd = (shm.queues q).dataStart ∧
        overrideStore q msg shm =
          appendMessage q msg (advanceStart q (releasePlain q (oldest q shm) shm)) := by
  unfold overrideStore
  split
  · next room => exact .inl ⟨by simpa [isWritable] using room, rfl⟩
  · next noRoom => exact .inr ⟨by simpa [isWritable] using noRoom, rfl⟩

theorem overrideStore_other (msg : Message) (shm : Shm) (different : p ≠ q) :
    (overrideStore q msg shm).queues p = shm.queues p := by
  rcases overrideStore_cases q msg shm with ⟨_, stored⟩ | ⟨_, stored⟩
  · rw [stored, appendMessage_other msg shm different]
  · rw [stored, appendMessage_other msg _ different, advanceStart_other _ different,
      releasePlain_other _ _ different]

/-- An overriding write forces its message in. -/
theorem overrideStore_ring (msg : Message) (ok : RingOk (shm.queues q)) :
    RingOk ((overrideStore q msg shm).queues q) ∧
      Absorbed (shm.queues q) ((overrideStore q msg shm).queues q) [msg] := by
  have writable := isWritable_iff ok
  rw [isWritable, bne_iff_ne] at writable
  have positive := ok.positive
  rcases overrideStore_cases q msg shm with ⟨room, stored⟩ | ⟨full, stored⟩ <;> rw [stored]
  · have short := writable.mp room
    obtain ⟨ringOk, pending, written, queueLength, recycle⟩ := appendMessage_ring msg ok room
    refine ⟨ringOk, queueLength, recycle, ?_, written⟩
    rw [pending, List.foldl_cons, List.foldl_nil, BoundedFifo.force, if_pos (by omega)]
  · have long := mt writable.mpr (not_not.mpr full)
    have same := releasePlain_sameRing q (oldest q shm) shm
    obtain ⟨evictedOk, head, room⟩ := advanceStart_evicted ok full same
    obtain ⟨ringOk, pending, written, queueLength, recycle⟩ :=
      appendMessage_ring msg evictedOk room
    refine ⟨ringOk, queueLength.trans ?_, recycle.trans ?_, ?_, written.trans ?_⟩
    · simp only [advanceStart, Shm.updateQueue_same]
      rw [same]
    · simp only [advanceStart, Shm.updateQueue_same]
      rw [same]
    · rw [pending, List.foldl_cons, BoundedFifo.force, if_neg (by omega), head]
      rfl
    · simp only [advanceStart, Shm.updateQueue_same]
      rw [same]

theorem writeMessageWith_legal {drop : Message → Shm → Outcome Unit} {options : Options}
    (legal : WriteLegal options) :
    writeMessageWith drop thread q msg options shm =
      doWriteMessage drop thread q msg options shm := by
  simp [writeMessageWith, legal.1, legal.2]

/-- The overriding write that recycling makes on a queue without a recycle queue. -/
theorem writeMessageWith_override (thread : ThreadId) (depth : Nat) (msg : Message)
    (plain : (shm.queues q).recycle = none) (ok : RingOk (shm.queues q)) :
    writeMessageWith (decrementMessageReferenceCount (doFreeMessage thread (depth + 1) q))
      thread q msg kOverride shm = .returned true (overrideStore q msg shm) := by
  rcases overrideStore_cases q msg shm with ⟨room, stored⟩ | ⟨full, stored⟩ <;> rw [stored]
  · exact doWriteMessage_room room
  · exact doWriteMessage_evicted full (by decide) (by decide) ok
      (decrement_plain thread depth _ plain) (releasePlain_sameRing q _ shm)

theorem takeFree_sameRing (q : QueueId) (header : Message) (shm : Shm) :
    SameRing (shm.queues q) ((takeFree q header shm).queues q) := by
  simp only [takeFree, Shm.setRefCount_queues, Shm.updateQueue_same]
  rfl

theorem takeFree_other (header : Message) (shm : Shm) (different : p ≠ q) :
    (takeFree q header shm).queues p = shm.queues p := by
  simp [takeFree, different]

/-- Freeing on a queue with a recycle queue is a trade, unless the recycle queue
has no free message left. -/
theorem doFreeMessage_recycled (thread : ThreadId) (depth : Nat) (msg : Message)
    (points : (shm.queues q).recycle = some recycle) (plain : (shm.queues recycle).recycle = none)
    (ok : RingOk (shm.queues recycle)) :
    doFreeMessage thread (depth + 2) q msg shm =
      match (shm.queues recycle).freeMessages with
      | none => .died (.overusedPool (shm.queues recycle).name)
      | some newMsg => .returned () (trade q recycle msg newMsg shm) := by
  rw [doFreeMessage, points]
  simp only
  cases available : (shm.queues recycle).freeMessages with
  | none => rw [getMessage_none available, Outcome.bind_died]
  | some newMsg =>
    have same := takeFree_sameRing recycle newMsg shm
    have okTaken : RingOk _ :=
      same.ringOk ok
    have plainTaken :
        (((takeFree recycle newMsg shm).refCountAdd msg).queues recycle).recycle = none :=
      (Absorbed.ofSameRing same).recycle.trans plain
    rw [getMessage_some available, Outcome.bind_returned,
      writeMessageWith_override thread depth msg plainTaken okTaken]
    rfl

/-- A trade respects the ring of the freeing queue, forces the message into the
recycle queue and leaves the other queues alone. -/
theorem trade_rings (msg newMsg : Message) (different : q ≠ recycle)
    (ok : RingOk (shm.queues recycle)) :
    SameRing (shm.queues q) ((trade q recycle msg newMsg shm).queues q) ∧
      RingOk ((trade q recycle msg newMsg shm).queues recycle) ∧
      Absorbed (shm.queues recycle) ((trade q recycle msg newMsg shm).queues recycle) [msg] ∧
      ∀ p, p ≠ q → p ≠ recycle →
        (trade q recycle msg newMsg shm).queues p = shm.queues p := by
  have same := takeFree_sameRing recycle newMsg shm
  have okTaken : RingOk (((takeFree recycle newMsg shm).refCountAdd msg).queues recycle) :=
    same.ringOk ok
  obtain ⟨ringOk, absorbed⟩ := overrideStore_ring msg okTaken
  unfold trade
  refine ⟨?_, ?_, ?_, ?_⟩
  · rw [Shm.pushFree_same, overrideStore_other _ _ different, Shm.refCountAdd_queues,
      takeFree_other _ _ different]
    rfl
  · rw [Shm.pushFree_other _ _ (.symm different)]
    exact ringOk
  · rw [Shm.pushFree_other _ _ (.symm different)]
    exact (Absorbed.ofSameRing same).trans absorbed
  · intro p notQ notRecycle
    rw [Shm.pushFree_other _ _ notQ, overrideStore_other _ _ notRecycle,
      Shm.refCountAdd_queues, takeFree_other _ _ notRecycle]

/-- What every returning drop guarantees about the rings. -/
structure ReleaseSpec (q : QueueId) (before after : Shm) : Prop where
  wellFormed : WellFormed after
  same : SameRing (before.queues q) (after.queues q)
  recycled : ∀ p, RecycledOnto q p before after

/-- A change that touches neither the ring of one queue nor the other queues. -/
theorem WellFormed.releaseSpec (well : WellFormed before)
    (same : SameRing (before.queues q) (after.queues q))
    (others : ∀ p, p ≠ q → after.queues p = before.queues p) : ReleaseSpec q before after := by
  have sameAll : ∀ p, SameRing (before.queues p) (after.queues p) := by
    intro p
    by_cases here : p = q
    · exact here ▸ same
    · rw [others p here]
      exact .refl _
  refine ⟨well.of_queues ?_ ?_, same, fun p => .ofSameRing q (sameAll p)⟩
  · intro p
    exact (Absorbed.ofSameRing (sameAll p)).recycle
  · intro p
    exact (sameAll p).ringOk (well.rings p)

theorem releasePlain_spec (msg : Message) (well : WellFormed shm) :
    ReleaseSpec q shm (releasePlain q msg shm) :=
  well.releaseSpec (releasePlain_sameRing q msg shm) fun _ => releasePlain_other msg shm

/-- Allocation takes the head of the free list and nothing else. -/
theorem takeFree_spec (header : Message) (well : WellFormed shm) :
    ReleaseSpec q shm (takeFree q header shm) :=
  well.releaseSpec (takeFree_sameRing q header shm) fun _ => takeFree_other header shm

theorem getMessage_spec (well : WellFormed shm) (returned : getMessage q shm = .returned msg after) :
    ReleaseSpec q shm after := by
  obtain ⟨_, rfl⟩ := getMessage_returned returned
  exact takeFree_spec msg well

theorem trade_spec (msg newMsg : Message) (well : WellFormed shm)
    (points : (shm.queues q).recycle = some recycle) :
    ReleaseSpec q shm (trade q recycle msg newMsg shm) := by
  have different := well.recycle_ne points
  obtain ⟨same, ringOk, absorbed, others⟩ :=
    trade_rings msg newMsg different (well.rings recycle)
  have recycledAll : ∀ p, RecycledOnto q p shm (trade q recycle msg newMsg shm) := by
    intro p
    by_cases isQ : p = q
    · subst isQ
      exact .ofSameRing p same
    · by_cases isRecycle : p = recycle
      · subst isRecycle
        exact ⟨[msg], absorbed, absurd points⟩
      · exact .ofSameRing q (by rw [others p isQ isRecycle]; exact .refl _)
  refine ⟨well.of_queues ?_ ?_, same, recycledAll⟩
  · intro p
    obtain ⟨_, change, _⟩ := recycledAll p
    exact change.recycle
  · intro p
    by_cases isQ : p = q
    · subst isQ
      exact same.ringOk (well.rings p)
    · by_cases isRecycle : p = recycle
      · subst isRecycle
        exact ringOk
      · rw [others p isQ isRecycle]
        exact well.rings p

/-- Everything a drop can do: count down, free on the queue itself, trade with the
recycle queue, or die because that queue has no free message. -/
inductive Released (q : QueueId) (msg : Message) (shm : Shm) : Outcome Unit → Prop where
  | plain (alone : (shm.queues q).recycle = none) :
      Released q msg shm (.returned () (releasePlain q msg shm))
  | counted (shared : ((shm.refCountSub msg).header msg).refCount ≠ 0) :
      Released q msg shm (.returned () (shm.refCountSub msg))
  | traded (recycle : QueueId) (newMsg : Message)
      (points : (shm.queues q).recycle = some recycle)
      (last : ((shm.refCountSub msg).header msg).refCount = 0)
      (available : (shm.queues recycle).freeMessages = some newMsg) :
      Released q msg shm (.returned () (trade q recycle msg newMsg (shm.refCountSub msg)))
  | overused (recycle : QueueId) (points : (shm.queues q).recycle = some recycle)
      (exhausted : (shm.queues recycle).freeMessages = none) :
      Released q msg shm (.died (.overusedPool (shm.queues recycle).name))

theorem release_cases (thread : ThreadId) (q : QueueId) (msg : Message) (well : WellFormed shm) :
    Released q msg shm (release thread q msg shm) := by
  cases points : (shm.queues q).recycle with
  | none =>
    unfold release
    rw [show recycleDepth = 1 + 1 from rfl, decrement_plain thread 1 msg points]
    exact .plain points
  | some recycle =>
    have pointsSub : ((shm.refCountSub msg).queues q).recycle = some recycle := points
    have freed := doFreeMessage_recycled thread 0 msg pointsSub
      (well.flat q recycle points) (well.rings recycle)
    unfold release decrementMessageReferenceCount
    simp only
    split
    · rename_i last
      rw [show recycleDepth = 0 + 2 from rfl, freed]
      cases available : ((shm.refCountSub msg).queues recycle).freeMessages with
      | none => exact .overused recycle points available
      | some newMsg => exact .traded recycle newMsg points last available
    · rename_i shared
      exact .counted shared

/-- A returning drop respects the rings. -/
theorem release_spec (well : WellFormed shm)
    (returned : release thread q msg shm = .returned () after) :
    ReleaseSpec q shm after := by
  have wellSub : WellFormed (shm.refCountSub msg) := ⟨well.flat, well.rings⟩
  have cases := release_cases thread q msg well
  rw [returned] at cases
  cases cases with
  | plain alone => exact releasePlain_spec msg well
  | counted shared => exact well.releaseSpec (.refl _) fun _ _ => rfl
  | traded recycle newMsg points last available =>
    have spec := trade_spec msg newMsg wellSub points
    exact ⟨spec.wellFormed, spec.same, spec.recycled⟩

end Miranda.RawQueue
