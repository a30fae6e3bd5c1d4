import Miranda.RawQueue.Model

/-!
# The ring of one queue

`pending` reads the ring as a list, oldest message first, and `RingOk` is what the
constructor establishes and every call preserves: the two indices are legal, and
the pending messages are the newest part of everything that was written.

Dropping a reference never touches the ring of the queue it is dropped on. The
relation `SameRing` says so for one queue and `RingOnly` says the opposite for the
whole memory: nothing changed but the ring bookkeeping of one queue. The loops of
the write and read operations are characterised here once, for any way of dropping
references that respects the ring.
-/

namespace Miranda.RawQueue

open CircularBuffer

namespace Shm

@[simp] theorem updateQueue_same (shm : Shm) (q : QueueId) (change : RawQueue → RawQueue) :
    (shm.updateQueue q change).queues q = change (shm.queues q) := by
  simp [updateQueue]

@[simp] theorem updateQueue_other (shm : Shm) {p q : QueueId} (change : RawQueue → RawQueue)
    (different : p ≠ q) : (shm.updateQueue q change).queues p = shm.queues p := by
  simp [updateQueue, different]

@[simp] theorem updateQueue_header (shm : Shm) (q : QueueId) (change : RawQueue → RawQueue) :
    (shm.updateQueue q change).header = shm.header := rfl

@[simp] theorem updateHeader_queues (shm : Shm) (msg : Message)
    (change : MessageHeader → MessageHeader) :
    (shm.updateHeader msg change).queues = shm.queues := rfl

@[simp] theorem refCountAdd_queues (shm : Shm) (msg : Message) :
    (shm.refCountAdd msg).queues = shm.queues := rfl

@[simp] theorem refCountSub_queues (shm : Shm) (msg : Message) :
    (shm.refCountSub msg).queues = shm.queues := rfl

@[simp] theorem setRefCount_queues (shm : Shm) (msg : Message) (count : Int) :
    (shm.setRefCount msg count).queues = shm.queues := rfl

@[simp] theorem pushFree_same (shm : Shm) (q : QueueId) (msg : Message) :
    (shm.pushFree q msg).queues q = { shm.queues q with freeMessages := some msg } := by
  simp [pushFree]

@[simp] theorem pushFree_other (shm : Shm) {p q : QueueId} (msg : Message) (different : p ≠ q) :
    (shm.pushFree q msg).queues p = shm.queues p := by
  simp [pushFree, different]

end Shm

variable {α β : Type} {after before : RawQueue}

@[simp] theorem Outcome.bind_returned (value : α) (shm : Shm) (next : α → Shm → Outcome β) :
    (Outcome.returned value shm).bind next = next value shm := rfl

@[simp] theorem Outcome.bind_waiting (shm : Shm) (next : α → Shm → Outcome β) :
    (Outcome.waiting shm).bind next = .waiting shm := rfl

@[simp] theorem Outcome.bind_died (reason : Fatal) (next : α → Shm → Outcome β) :
    (Outcome.died reason).bind next = .died reason := rfl

/-- A sequenced call returns only if its first part does. -/
theorem Outcome.bind_eq_returned {outcome : Outcome α} {next : α → Shm → Outcome β} {value : β}
    {shm : Shm} (returned : outcome.bind next = .returned value shm) :
    ∃ middle between, outcome = .returned middle between ∧
      next middle between = .returned value shm := by
  cases outcome with
  | returned middle between => exact ⟨middle, between, rfl, returned⟩
  | waiting _ => cases returned
  | died _ => cases returned
  | unfinished => cases returned

/-- The messages in the ring, oldest first. -/
def pending (queue : RawQueue) : List Message :=
  window queue.data queue.dataLength queue.dataStart queue.dataEnd

/-- The state of a ring between calls. -/
structure RingOk (queue : RawQueue) : Prop where
  positive : 1 ≤ queue.queueLength
  capacity : queue.dataLength = queue.queueLength + 1
  startValid : Valid queue.dataLength queue.dataStart
  endValid : Valid queue.dataLength queue.dataEnd
  counted : queue.messages = int32 queue.written.length
  newest : queue.pending <:+ queue.written

/-- Equal in everything but the free list. -/
def SameRing (before after : RawQueue) : Prop :=
  after = { before with freeMessages := after.freeMessages }

theorem SameRing.refl (queue : RawQueue) : SameRing queue queue := rfl

theorem SameRing.pending (same : SameRing before after) :
    after.pending = before.pending := by
  rw [same]
  rfl

theorem SameRing.ringOk (same : SameRing before after) (ok : RingOk before) : RingOk after := by
  rw [same]
  exact ⟨ok.positive, ok.capacity, ok.startValid, ok.endValid, ok.counted, ok.newest⟩

/-- A ring is not judged by who waits for it. -/
theorem RingOk.rewait {queue : RawQueue} (ok : RingOk queue) (readable writable : List ThreadId)
    (writableStart readableWaiting : Bool) :
    RingOk { queue with readable, writable, writableStart, readableWaiting } :=
  ⟨ok.positive, ok.capacity, ok.startValid, ok.endValid, ok.counted, ok.newest⟩

section Lists

variable {queue : RawQueue} (ok : RingOk queue)
include ok

theorem pending_length_le : (queue.pending.length : Int) ≤ queue.queueLength := by
  have bound := window_length_lt queue.data ok.startValid ok.endValid
  have capacity := ok.capacity
  unfold pending
  omega

theorem pending_le_dataLength : queue.pending.length ≤ queue.dataLength.toNat := by
  have bound := pending_length_le ok
  have capacity := ok.capacity
  omega

/-- The ring is full exactly when its list has `queue_length_` elements. -/
theorem full_iff : queue.indexAdd1 queue.dataEnd = queue.dataStart ↔
    (queue.pending.length : Int) = queue.queueLength := by
  have full := window_full queue.data ok.startValid ok.endValid
  have capacity := ok.capacity
  unfold indexAdd1 pending
  omega

theorem pending_eq_nil : queue.pending = [] ↔ queue.dataStart = queue.dataEnd :=
  window_eq_nil _ ok.startValid ok.endValid

theorem isWritable_iff : queue.isWritable = true ↔
    (queue.pending.length : Int) < queue.queueLength := by
  have full := full_iff ok
  have bound := pending_length_le ok
  simp only [isWritable, bne_iff_ne, ne_eq, full]
  omega

section

variable (occupied : queue.dataStart ≠ queue.dataEnd)
include occupied

/-- The oldest message is the one at the start index. -/
theorem pending_head :
    queue.pending = queue.data queue.dataStart ::
      { queue with dataStart := queue.indexAdd1 queue.dataStart }.pending :=
  window_pop _ ok.startValid ok.endValid occupied

theorem pending_last :
    queue.pending.getLast? = some (queue.data queue.lastMessageIndex) :=
  window_getLast? _ ok.startValid ok.endValid occupied

/-- Advancing the start keeps the ring in order. -/
theorem RingOk.popped :
    RingOk { queue with dataStart := queue.indexAdd1 queue.dataStart } := by
  refine ⟨ok.positive, ok.capacity, advance_valid ok.startValid, ok.endValid, ok.counted, ?_⟩
  have shape := pending_head ok occupied
  have shorter : { queue with dataStart := queue.indexAdd1 queue.dataStart }.pending <:+
      queue.pending := by
    rw [shape]
    exact List.suffix_cons _ _
  exact shorter.trans ok.newest

end

theorem pending_storeMessage (msg : Message)
    (room : queue.indexAdd1 queue.dataEnd ≠ queue.dataStart) :
    (storeMessage msg (queue.indexAdd1 queue.dataEnd) queue).pending = queue.pending ++ [msg] :=
  window_push _ msg ok.startValid ok.endValid room

/-- Storing a message where there is room keeps the ring in order. -/
theorem RingOk.stored (msg : Message)
    (room : queue.indexAdd1 queue.dataEnd ≠ queue.dataStart) :
    RingOk (storeMessage msg (queue.indexAdd1 queue.dataEnd) queue) := by
  refine ⟨ok.positive, ok.capacity, ok.startValid, advance_valid ok.endValid, ?_, ?_⟩
  · simp only [storeMessage, List.length_append, List.length_cons, List.length_nil,
      ok.counted, int32]
    push_cast
    simp
  · rw [pending_storeMessage ok msg room]
    obtain ⟨earlier, split⟩ := ok.newest
    exact ⟨earlier, by simp [storeMessage, ← split]⟩

/-- After evicting the oldest message of a full ring there is room. -/
theorem room_after_pop (full : queue.indexAdd1 queue.dataEnd = queue.dataStart) :
    queue.indexAdd1 queue.dataEnd ≠ queue.indexAdd1 queue.dataStart ∧
      queue.dataStart ≠ queue.dataEnd := by
  have positive := ok.positive
  have capacity := ok.capacity
  have startValid := ok.startValid
  have endValid := ok.endValid
  unfold indexAdd1 advance Valid at *
  constructor <;> split at full <;> (try split) <;> omega

end Lists

end Miranda.RawQueue
