import Miranda.RawQueue.Calls

/-!
# What a read looks at

Every read starts by deciding whether it has to wait and ends by waking writers if
it made room. Neither touches the ring. Between the two, an index read computes a
slot from the counter of messages, the caller's index and the two ring indices;
`indexedSlot_spec` says which pending message that slot holds and what the index
means afterwards, for counters that wrap and indices that are not negative.
-/

namespace Miranda.RawQueue

open CircularBuffer

/-- Record whether there was room before a read. -/
def markWritable (q : QueueId) (shm : Shm) : Shm :=
  shm.updateQueue q fun queue => { queue with writableStart := queue.isWritable }

theorem markWritable_ringOnly (q : QueueId) (shm : Shm) : RingOnly q shm (markWritable q shm) :=
  .update q shm rfl rfl

variable {q : QueueId} {shm : Shm} {index : Option Int} {options : Options} {thread : ThreadId}
  {queue : RawQueue}

/-- Noting whether there is room changes nothing a ring is judged by. -/
theorem markWritable_ring (ok : RingOk (shm.queues q)) :
    RingOk ((markWritable q shm).queues q) := by
  simp only [markWritable, Shm.updateQueue_same]
  exact ok.rewait _ _ _ _

theorem markWritable_pending (q : QueueId) (shm : Shm) :
    ((markWritable q shm).queues q).pending = (shm.queues q).pending := by
  simp only [markWritable, Shm.updateQueue_same]
  rfl

theorem readCommonStart_ready (ready : (shm.queues q).mustWait index = false) :
    readCommonStart thread q options index shm = .returned true (markWritable q shm) := by
  simp [readCommonStart, ready, markWritable]

/-- A legal read that does not block says so with `kNonBlock`. -/
theorem readLegal_nonBlock (legal : ReadLegal options) :
    options.has kNonBlock = !options.has kBlock := by
  have choice := ((readLegal_iff options).mp legal).1
  cases nonBlock : options.has kNonBlock <;> cases block : options.has kBlock <;> simp_all

theorem readCommonStart_empty (legal : ReadLegal options)
    (wait : (shm.queues q).mustWait index = true) (block : options.has kBlock = false) :
    readCommonStart thread q options index shm = .returned false shm := by
  simp [readCommonStart, wait, readLegal_nonBlock legal, block]

/-- The state a reader parks in. -/
def parkReader (thread : ThreadId) (q : QueueId) (shm : Shm) : Shm :=
  shm.updateQueue q fun queue =>
    { queue with readableWaiting := true, readable := thread :: queue.readable }

theorem readCommonStart_parked (legal : ReadLegal options)
    (wait : (shm.queues q).mustWait index = true) (block : options.has kBlock = true) :
    readCommonStart thread q options index shm = .waiting (parkReader thread q shm) := by
  simp [readCommonStart, wait, readLegal_nonBlock legal, block, parkReader]

theorem mustWait_none (queue : RawQueue) :
    queue.mustWait none = true ↔ queue.dataStart = queue.dataEnd := by
  simp [mustWait]

theorem checkReadOptions_legal (legal : ReadLegal options) :
    checkReadOptions options = none := by
  simp [checkReadOptions, legal.1, legal.2]

/-- Finishing a read that only looks: the message gains a reference. -/
theorem CallSpec.looked (thread : ThreadId) (msg : Message) (well : WellFormed shm) :
    CallSpec thread q [] (shm.refCountAdd msg)
        (readCommonEnd q (incrementMessageReferenceCount msg (markWritable q shm))) ∧
      ((readCommonEnd q (incrementMessageReferenceCount msg (markWritable q shm))).queues
        q).pending = (shm.queues q).pending ∧
      ((readCommonEnd q (incrementMessageReferenceCount msg (markWritable q shm))).queues
        q).written = (shm.queues q).written := by
  have wellAdded : WellFormed (shm.refCountAdd msg) := ⟨well.flat, well.rings⟩
  have ok := markWritable_ring (well.rings q)
  have marked : RingOnly q (shm.refCountAdd msg)
      _ :=
    markWritable_ringOnly q _
  have ended := readCommonEnd_ringOnly q (incrementMessageReferenceCount msg (markWritable q shm))
  obtain ⟨okEnd, pending, written, length⟩ :=
    readCommonEnd_ring q _
  refine ⟨.ofRingOnly thread wellAdded (marked.trans ended) (okEnd ok) ?_, ?_, ?_⟩
  · rw [length]
    simp [incrementMessageReferenceCount, markWritable]
  · rw [pending]
    exact markWritable_pending q shm
  · rw [written]
    simp [incrementMessageReferenceCount, markWritable]

theorem pending_head? (ok : RingOk queue) (occupied : queue.dataStart ≠ queue.dataEnd) :
    queue.pending.head? = some (queue.data queue.dataStart) := by
  rw [pending_head ok occupied]
  rfl

/-- A 32-bit signed counter is below two to the thirty-first. -/
theorem int32_lt (value : Int) : int32 value < 2 ^ 31 := by
  have bound := Int.bmod_lt (x := value) (m := 2 ^ 32) (by norm_num)
  unfold int32
  omega

/-- The message an index read returns, by its offset from the oldest pending one.
The caller's index catches up to the messages that are gone and no further: either
the oldest message is returned or the index did not move.

Proof: the unread messages are counted back from the end of the ring. If more are
unread than pending, reading starts at the oldest; otherwise the slot that many
places before the end is the offset of the first unread message. -/
theorem indexedSlot_spec {index : Int} (ok : RingOk queue)
    (occupied : queue.dataStart ≠ queue.dataEnd) (start : 0 ≤ index)
    (unread : index < queue.messages) :
    ∃ offset : Nat, queue.pending[offset]? = some (queue.data (queue.indexedSlot index).1) ∧
      (queue.indexedSlot index).2 = queue.messages - queue.pending.length + offset ∧
      index ≤ (queue.indexedSlot index).2 ∧
      (offset = 0 ∨ (queue.indexedSlot index).2 = index) := by
  have startValid := ok.startValid
  have endValid := ok.endValid
  have bounds := distance_valid startValid endValid
  have length := window_length queue.data startValid endValid
  have notEmpty : distance _ _ _ ≠ 0 :=
    fun zero => occupied ((distance_eq_zero startValid endValid).mp zero)
  have counterBound : queue.messages < 2 ^ 31 := by
    rw [ok.counted]
    exact int32_lt _
  have exactUnread : int32 _ = queue.messages - index :=
    int32_of_bounds (by omega) (by omega)
  change ((queue.pending.length : Int)) = _ at length
  unfold indexedSlot
  simp only [exactUnread]
  split
  · rename_i behind
    have exactCatch : int32 (queue.messages -
        distance queue.dataLength queue.dataStart queue.dataEnd) =
          queue.messages - distance queue.dataLength queue.dataStart queue.dataEnd := by
      exact int32_of_bounds (by omega) (by omega)
    refine ⟨0, ?_, ?_, ?_, Or.inl rfl⟩
    · rw [pending_head ok occupied]
      rfl
    · rw [exactCatch, length]
      simp
    · rw [exactCatch]
      omega
  · rename_i available
    refine ⟨(distance queue.dataLength queue.dataStart queue.dataEnd -
      (queue.messages - index)).toNat, ?_, ?_, Int.le_refl _, .inr rfl⟩
    · unfold pending
      rw [window_getElem? _ startValid endValid (by omega)]
      congr 2
      unfold Valid slot distance at *
      split at available <;> split <;> split <;> omega
    · rw [length]
      omega

/-- Which pending message an index read returns and what it leaves in the index.
Without `kFromEnd` it is the oldest one the index has not passed; with it, the
newest. -/
structure IndexedReply (queue : RawQueue) (options : Options) (index : Int) (msg : Message)
    (newIndex : Int) (offset : Nat) : Prop where
  found : queue.pending[offset]? = some msg
  newest : options.has kFromEnd = true →
    offset + 1 = queue.pending.length ∧ newIndex = queue.messages
  first : options.has kFromEnd = false →
    (offset = 0 ∨ queue.messages - queue.pending.length + offset = index) ∧
      index ≤ queue.messages - queue.pending.length + offset ∧
      newIndex = queue.messages - queue.pending.length + offset +
        (if options.has kPeek then 0 else 1)

/-- The reader's index never moves backwards, whatever the counter does. -/
theorem IndexedReply.forward {index newIndex : Int} {offset : Nat} {msg : Message}
    (unread : index < queue.messages)
    (reply : IndexedReply queue options index msg newIndex offset) : index ≤ newIndex := by
  cases fromEnd : options.has kFromEnd with
  | true =>
    obtain ⟨_, value⟩ := reply.newest fromEnd
    omega
  | false =>
    obtain ⟨_, passed, value⟩ := reply.first fromEnd
    split at value <;> omega

theorem readMessageIndex_legal {index : Int} (legal : ReadIndexLegal options) :
    readMessageIndex thread q options index shm =
      doReadMessageIndex thread q options index shm := by
  simp [readMessageIndex, checkReadOptions_legal legal.1, legal.2]

theorem readMessageIndex_parked {index : Int} (legal : ReadIndexLegal options)
    (wait : (shm.queues q).mustWait (some index) = true) (block : options.has kBlock = true) :
    readMessageIndex thread q options index shm = .waiting (parkReader thread q shm) := by
  rw [readMessageIndex_legal legal, doReadMessageIndex, readCommonStart_parked legal.1 wait block]
  rfl

theorem readMessageIndex_empty {index : Int} (legal : ReadIndexLegal options)
    (wait : (shm.queues q).mustWait (some index) = true) (block : options.has kBlock = false) :
    readMessageIndex thread q options index shm = .returned (none, index) shm := by
  rw [readMessageIndex_legal legal, doReadMessageIndex, readCommonStart_empty legal.1 wait block]
  rfl

theorem mustWait_some {index : Int} (ready : queue.mustWait (some index) = false) :
    queue.dataStart ≠ queue.dataEnd ∧ index < queue.messages := by
  simpa [mustWait] using ready

theorem readMessageIndex_returned (thread : ThreadId) {index : Int} (well : WellFormed shm)
    (legal : ReadIndexLegal options) (ready : (shm.queues q).mustWait (some index) = false)
    (start : 0 ≤ index) :
    ∃ offset msg newIndex after,
      readMessageIndex thread q options index shm = .returned (some msg, newIndex) after ∧
      IndexedReply (shm.queues q) options index msg newIndex offset ∧
      CallSpec thread q [] (shm.refCountAdd msg) after ∧
      (after.queues q).pending = (shm.queues q).pending ∧
      (after.queues q).written = (shm.queues q).written := by
  have ok := well.rings q
  have okMarked := markWritable_ring ok
  obtain ⟨occupied, unread⟩ := mustWait_some ready
  have marked : (markWritable q shm).queues q =
      { shm.queues q with writableStart := (shm.queues q).isWritable } := by
    simp [markWritable]
  rw [readMessageIndex_legal legal, doReadMessageIndex, readCommonStart_ready ready]
  cases fromEnd : options.has kFromEnd with
  | true =>
    obtain ⟨spec, pending, written⟩ := CallSpec.looked thread
      _ well
    have last := pending_last ok occupied
    have nonempty : (shm.queues q).pending ≠ [] := fun nil => occupied ((pending_eq_nil ok).mp nil)
    have positive := List.length_pos_of_ne_nil nonempty
    refine ⟨(shm.queues q).pending.length - 1, _, _, _, rfl, ⟨?_, ?_, ?_⟩, spec, pending, written⟩
    · rw [← List.getLast?_eq_getElem?, last, marked]
      rfl
    · intro _
      exact ⟨by omega, by rw [marked]⟩
    · intro contradiction
      rw [fromEnd] at contradiction
      cases contradiction
  | false =>
    simp only [Bool.false_eq_true, if_false]
    obtain ⟨offset, found, caughtUp, passed, nearest⟩ :=
      indexedSlot_spec ok occupied start unread
    obtain ⟨spec, pending, written⟩ := CallSpec.looked thread
      _
      well
    have sameSlot : ((markWritable q shm).queues q).indexedSlot index =
        (shm.queues q).indexedSlot index := by
      rw [marked]
      rfl
    have counterBound : (shm.queues q).messages < 2 ^ 31 := by
      rw [ok.counted]
      exact int32_lt _
    have inside : offset < (shm.queues q).pending.length := by
      exact (List.getElem?_eq_some_iff.mp found).1
    refine ⟨offset, _, _, _, rfl, ⟨?_, ?_, ?_⟩, spec, pending, written⟩
    · rw [found, marked]
      rfl
    · intro contradiction
      rw [fromEnd] at contradiction
      cases contradiction
    · intro _
      rw [sameSlot]
      refine ⟨?_, by omega, ?_⟩
      · rcases nearest with zero | unmoved
        · exact .inl zero
        · exact .inr (by omega)
      · cases options.has kPeek with
        | true =>
          simp only [if_true]
          omega
        | false =>
          simp only [Bool.false_eq_true, if_false]
          rw [int32_of_bounds (by omega) (by omega), caughtUp]

end Miranda.RawQueue
