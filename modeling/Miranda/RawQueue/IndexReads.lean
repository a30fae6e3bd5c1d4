import Miranda.RawQueue.Clients

/-!
# Reading with an index

The messages of a queue are numbered from one in the order they were written. One
reader keeps an index that starts at zero and calls `ReadMessageIndex` with it, in
any interleaving with any other calls by anybody, also on the same queue. As long
as the counter of messages has not wrapped, the index is a number of this kind: the
reader never sees a number twice or out of order, and the slot arithmetic of the
queue picks the oldest, or with `kFromEnd` the newest, message it has not passed.
-/

namespace Miranda.RawQueue

open CircularBuffer Runs List

/-- The numbers of the messages that are in the ring now. -/
def InRing (queue : RawQueue) (number : Nat) : Prop :=
  queue.written.length < number + queue.pending.length ∧ number ≤ queue.written.length

/-- The same options with `kPeek` taken out. -/
def Options.withoutPeek (options : Options) : Options := ⟨options.bits &&& ~~~kPeek.bits⟩

/-- Memory together with the index of the reader. -/
structure Watched where
  shm : Shm
  index : Int

inductive ReaderEvent where
  | other (event : Event)
  | read (thread : ThreadId) (options : Options) (reply : Option Message) (index : Int)

/-- Any client makes a call, or the reader makes one with its own index. -/
def ReaderStep (q : QueueId) (state : Watched) (event : ReaderEvent) (next : Watched) : Prop :=
  match event with
  | .other event => Step state.shm event next.shm ∧ next.index = state.index
  | .read thread options reply index =>
      ReadIndexLegal options ∧
        readMessageIndex thread q options state.index state.shm =
          .returned (reply, index) next.shm ∧
        next.index = index

variable {index : Int} {q : QueueId} {after shm : Shm} {newIndex : Int} {reply : Option Message}
  {options : Options} {thread : ThreadId} {msg : Message} {offset : Nat} {queue : RawQueue}
  {events : List ReaderEvent} {next state : Watched} {event : ReaderEvent}

theorem ReaderStep.ofStep {event : Event} (taken : Step shm event after) :
    ReaderStep q ⟨shm, index⟩ (.other event) ⟨after, index⟩ :=
  ⟨taken, rfl⟩

theorem ReaderStep.ofRead (legal : ReadIndexLegal options)
    (returned : readMessageIndex thread q options index shm = .returned (reply, newIndex) after) :
    ReaderStep q ⟨shm, index⟩ (.read thread options reply newIndex) ⟨after, newIndex⟩ :=
  ⟨legal, returned, rfl⟩

/-- The message and the new index of a reader's call that consumed a message. -/
def taken : ReaderEvent → Option (Message × Int)
  | .read _ options (some msg) index => if options.has kPeek then none else some (msg, index)
  | _ => none

/-- What a returning call of the reader says about the message it returns. -/
structure NumberedReply (queue : RawQueue) (options : Options) (index : Int) (msg : Message)
    (newIndex : Int) (number : Nat) : Prop where
  inRing : InRing queue number
  unread : index < number
  forward : index ≤ newIndex
  reached : newIndex ≤ queue.written.length
  message : queue.written[number - 1]? = some msg
  newest : options.has kFromEnd = true → number = queue.written.length
  oldest : options.has kFromEnd = false →
    ∀ other, InRing queue other → index < other → number ≤ other
  consumed : options.has kPeek = false → newIndex = number
  peeked : options.has kPeek = true →
    ∀ other, InRing queue other → (newIndex < other ↔ index < other)

theorem readIndexLegal_cases (legal : ReadIndexLegal options) :
    options ∈ ([⟨4⟩, ⟨5⟩, ⟨6⟩, ⟨8⟩, ⟨9⟩, ⟨10⟩] : List Options) := by
  have bound := ((readLegal_iff options).mp legal.1).2
  revert legal
  exact options_of_values (by decide) options (Nat.le_of_lt_succ bound)

/-- Taking `kPeek` out keeps the options legal and changes nothing else. A call
that peeks never reads from the end. -/
theorem withoutPeek_spec (legal : ReadIndexLegal options) :
    ReadIndexLegal options.withoutPeek ∧ options.withoutPeek.has kPeek = false ∧
      options.withoutPeek.has kBlock = options.has kBlock ∧
      options.withoutPeek.has kFromEnd = options.has kFromEnd := by
  have shape := readIndexLegal_cases legal
  simp only [mem_cons, not_mem_nil, or_false] at shape
  rcases shape with rfl | rfl | rfl | rfl | rfl | rfl <;> decide

/-- Peeking from the end with an index is not allowed. -/
theorem peek_excludes_fromEnd (legal : ReadIndexLegal options) (peek : options.has kPeek = true) :
    options.has kFromEnd = false := by
  have shape := readIndexLegal_cases legal
  simp only [mem_cons, not_mem_nil, or_false] at shape
  revert peek
  rcases shape with rfl | rfl | rfl | rfl | rfl | rfl <;> decide

section Numbers

variable {queue : RawQueue} (ok : RingOk queue)
include ok

theorem pending_length_le_written : queue.pending.length ≤ queue.written.length :=
  ok.newest.length_le

/-- An offset into the ring is an offset from the end of the history. -/
theorem written_of_pending {offset : Nat} {msg : Message}
    (found : queue.pending[offset]? = some msg) :
    queue.written[queue.written.length - queue.pending.length + offset]? = some msg := by
  obtain ⟨earlier, split⟩ := ok.newest
  have length : queue.written.length - queue.pending.length = earlier.length := by
    rw [← split, length_append]
    omega
  rw [length, ← split, getElem?_append_right (by omega), ← found]
  congr 1
  omega

/-- A counter that has not wrapped counts the history. -/
theorem messages_exact (few : queue.written.length < 2 ^ 31) :
    queue.messages = queue.written.length := by
  rw [ok.counted]
  exact int32_of_bounds (by omega) (by omega)

/-- A reader has to wait exactly when no number in the ring is beyond its index. -/
theorem mustWait_iff (few : queue.written.length < 2 ^ 31) (index : Int) :
    queue.mustWait (some index) = true ↔ ∀ number, InRing queue number → (number : Int) ≤ index := by
  have exact := messages_exact ok few
  have emptyIff := pending_eq_nil ok
  have short := pending_length_le_written ok
  constructor
  · intro wait number inRing
    unfold InRing at inRing
    simp only [mustWait, Bool.or_eq_true, beq_iff_eq, decide_eq_true_eq] at wait
    rcases wait with empty | passed
    · rw [← emptyIff] at empty
      rw [empty, length_nil] at inRing
      omega
    · omega
  · intro passed
    by_contra ready
    obtain ⟨occupied, unread⟩ := mustWait_some (by simpa using ready)
    have nonempty := length_pos_of_ne_nil fun nil => occupied (emptyIff.mp nil)
    have newest := passed _ ⟨by omega, Nat.le_refl _⟩
    omega

end Numbers

/-- The reply of an index read, in terms of numbers. -/
theorem IndexedReply.numbered (ok : RingOk queue) (few : queue.written.length < 2 ^ 31)
    (legal : ReadIndexLegal options) (unread : index < queue.messages)
    (reply : IndexedReply queue options index msg newIndex offset) :
    NumberedReply queue options index msg newIndex
      (queue.written.length - queue.pending.length + offset + 1) := by
  have exact := messages_exact ok few
  have short := pending_length_le_written ok
  have inside := (List.getElem?_eq_some_iff.mp reply.found).1
  refine ⟨?_, ?_, reply.forward unread, ?_, ?_, ?_, ?_, ?_, ?_⟩
  · unfold InRing
    omega
  · cases fromEnd : options.has kFromEnd with
    | true =>
      have newest := reply.newest fromEnd
      omega
    | false =>
      have first := reply.first fromEnd
      omega
  · cases fromEnd : options.has kFromEnd with
    | true =>
      obtain ⟨_, value⟩ := reply.newest fromEnd
      omega
    | false =>
      obtain ⟨_, _, value⟩ := reply.first fromEnd
      split at value <;> omega
  · exact written_of_pending ok reply.found
  · intro fromEnd
    have newest := reply.newest fromEnd
    omega
  · intro notEnd other inRing beyond
    obtain ⟨nearest, _, _⟩ := reply.first notEnd
    unfold InRing at inRing
    omega
  · intro notPeek
    cases fromEnd : options.has kFromEnd with
    | true =>
      have newest := reply.newest fromEnd
      omega
    | false =>
      obtain ⟨_, _, value⟩ := reply.first fromEnd
      rw [notPeek] at value
      simp only [Bool.false_eq_true, if_false] at value
      omega
  · intro peek other inRing
    obtain ⟨nearest, passed, value⟩ := reply.first (peek_excludes_fromEnd legal peek)
    rw [peek] at value
    simp only [if_true] at value
    unfold InRing at inRing
    omega

/-- Histories only grow. -/
theorem step_written_grows {event : Event} (well : WellFormed shm) (taken : Step shm event after)
    (q : QueueId) :
    ∃ more, (after.queues q).written = (shm.queues q).written ++ more := by
  have spec := step_spec well taken
  by_cases here : q = event.queue
  · exact here ▸ ⟨_, spec.written⟩
  · obtain ⟨recycled, change, _⟩ := spec.recycled q here
    exact ⟨recycled, change.written⟩

/-- What holds of the reader after any run: its index is a number that was reached,
and the numbers it consumed rise towards that index. -/
structure Watching (q : QueueId) (events : List ReaderEvent) (state : Watched) : Prop where
  wellFormed : WellFormed state.shm
  start : 0 ≤ state.index
  reached : state.index ≤ (state.shm.queues q).written.length
  increasing : ((events.filterMap taken).map Prod.snd).Pairwise (· < ·)
  numbered : ∀ entry ∈ events.filterMap taken, 1 ≤ entry.2 ∧ entry.2 ≤ state.index ∧
    (state.shm.queues q).written[(entry.2 - 1).toNat]? = some entry.1

section

variable (watching : Watching q events state)
include watching

/-- Somebody else's call. -/
theorem Watching.other {event : Event} (taken : Step state.shm event next.shm)
    (unmoved : next.index = state.index) :
    Watching q (events ++ [.other event]) next := by
  obtain ⟨more, written⟩ := step_written_grows watching.wellFormed taken q
  have nothing : (events ++ [ReaderEvent.other event]).filterMap RawQueue.taken =
      events.filterMap RawQueue.taken := by
    simp [RawQueue.taken]
  have reached := watching.reached
  refine ⟨(step_spec watching.wellFormed taken).wellFormed, ?_, ?_, ?_, ?_⟩
  · rw [unmoved]
    exact watching.start
  · rw [written, length_append]
    omega
  · rw [nothing]
    exact watching.increasing
  · rw [nothing, unmoved, written]
    intro entry member
    obtain ⟨positive, passed, message⟩ := watching.numbered entry member
    exact ⟨positive, passed, by
      rw [getElem?_append_left (List.getElem?_eq_some_iff.mp message).1, message]⟩

/-- A call of the reader that consumed nothing may still move its index forward. -/
theorem Watching.idle (nothing : RawQueue.taken event = none)
    (well : WellFormed next.shm)
    (written : (next.shm.queues q).written = (state.shm.queues q).written)
    (forward : state.index ≤ next.index)
    (reached : next.index ≤ (state.shm.queues q).written.length) :
    Watching q (events ++ [event]) next := by
  have same : (events ++ [event]).filterMap RawQueue.taken = events.filterMap RawQueue.taken := by
    simp [nothing]
  have start := watching.start
  refine ⟨well, by omega, by rw [written]; exact reached, ?_, ?_⟩
  · rw [same]
    exact watching.increasing
  · rw [same, written]
    intro entry member
    obtain ⟨positive, passed, message⟩ := watching.numbered entry member
    exact ⟨positive, passed.trans forward, message⟩

/-- A call that consumed the message with the given number. -/
theorem Watching.consumed {number : Nat} (took : RawQueue.taken event = some (msg, next.index))
    (well : WellFormed next.shm)
    (written : (next.shm.queues q).written = (state.shm.queues q).written)
    (value : next.index = number) (unread : state.index < number)
    (inRing : InRing (state.shm.queues q) number)
    (message : (state.shm.queues q).written[number - 1]? = some msg) :
    Watching q (events ++ [event]) next := by
  have longer : (events ++ [event]).filterMap RawQueue.taken =
      events.filterMap RawQueue.taken ++ [(msg, next.index)] := by
    simp [took]
  have start := watching.start
  have inside := inRing.2
  refine ⟨well, by omega, by rw [written]; omega, ?_, ?_⟩
  · rw [longer, map_append, pairwise_append]
    refine ⟨watching.increasing, pairwise_singleton _ _, ?_⟩
    intro earlier earlierMember later laterMember
    obtain ⟨entry, member, rfl⟩ := mem_map.mp earlierMember
    obtain ⟨_, passed, _⟩ := watching.numbered entry member
    simp only [map_cons, map_nil, mem_singleton] at laterMember
    omega
  · rw [longer, written]
    intro entry member
    rcases mem_append.mp member with before | last
    · obtain ⟨positive, passed, found⟩ := watching.numbered entry before
      exact ⟨positive, by omega, found⟩
    · rw [mem_singleton.mp last]
      refine ⟨by omega, Int.le_refl _, ?_⟩
      rw [← message]
      congr 1
      omega

theorem readerStep_watching (few : (state.shm.queues q).written.length < 2 ^ 31)
    (step : ReaderStep q state event next) :
    Watching q (events ++ [event]) next := by
  have ok := watching.wellFormed.rings q
  cases event with
  | other event => exact watching.other step.1 step.2
  | read thread options reply index =>
    obtain ⟨legal, returned, moved⟩ := step
    obtain ⟨spec, _, written, replied⟩ :=
      reader_call watching.wellFormed legal watching.start returned
    cases reply with
    | none =>
      obtain ⟨unmoved, _⟩ := replied
      have reached := watching.reached
      exact watching.idle rfl spec.wellFormed written (by omega) (by omega)
    | some msg =>
      obtain ⟨unread, offset, indexed⟩ := replied
      have numbered := indexed.numbered ok few legal unread
      cases peek : options.has kPeek with
      | true =>
        refine watching.idle (by simp [taken, peek]) spec.wellFormed written ?_ ?_
        · rw [moved]
          exact numbered.forward
        · rw [moved]
          exact numbered.reached
      | false =>
        refine watching.consumed (by simp [taken, peek, moved]) spec.wellFormed written ?_
          numbered.unread numbered.inRing numbered.message
        rw [moved]
        exact numbered.consumed peek

end

/-- What every step does, also when the counter wraps: memory stays well formed, the
history grows and the index does not fall. -/
theorem readerStep_grows (well : WellFormed state.shm) (start : 0 ≤ state.index)
    (step : ReaderStep q state event next) :
    WellFormed next.shm ∧ state.index ≤ next.index ∧
      ∃ more, (next.shm.queues q).written = (state.shm.queues q).written ++ more := by
  cases event with
  | other event =>
    exact ⟨(step_spec well step.1).wellFormed, step.2.ge, step_written_grows well step.1 q⟩
  | read thread options reply index =>
    obtain ⟨legal, returned, moved⟩ := step
    obtain ⟨spec, _, written, replied⟩ := reader_call well legal start returned
    refine ⟨spec.wellFormed, ?_, [], by rw [written, append_nil]⟩
    rw [moved]
    cases reply with
    | none => exact replied.1.ge
    | some msg =>
      obtain ⟨unread, offset, indexed⟩ := replied
      exact indexed.forward unread

/-- The invariant along a run. That few messages have been written at the end says
the same of every state before. -/
theorem run_watching {initial : Shm} {final : Watched} (fresh : Fresh initial)
    (run : Run (ReaderStep q) ⟨initial, 0⟩ events final)
    (few : (final.shm.queues q).written.length < 2 ^ 31) : Watching q events final := by
  have strengthened : WellFormed final.shm ∧ 0 ≤ final.index ∧
      ((final.shm.queues q).written.length < 2 ^ 31 → Watching q events final) := by
    clear few
    induction run with
    | nil =>
      refine ⟨fresh.wellFormed, Int.le_refl 0, fun _ => ⟨fresh.wellFormed, Int.le_refl 0, ?_,
        .nil, ?_⟩⟩
      · exact Int.natCast_nonneg _
      · intro entry member
        cases member
    | snoc before taken ih =>
      obtain ⟨well, start, watching⟩ := ih
      obtain ⟨wellNext, forward, more, written⟩ := readerStep_grows well start taken
      refine ⟨wellNext, by omega, fun few => ?_⟩
      rw [written, length_append] at few
      exact readerStep_watching (watching (by omega)) (by omega) taken
  exact strengthened.2.2 few

/-- What the reader's next call does in a state it has reached. -/
structure NextCall (thread : ThreadId) (q : QueueId) (options : Options) (state : Watched) :
    Prop where
  returned : ∀ msg newIndex after,
    readMessageIndex thread q options state.index state.shm =
        .returned (some msg, newIndex) after →
      (after.queues q).pending = (state.shm.queues q).pending ∧
        ∃ number, NumberedReply (state.shm.queues q) options state.index msg newIndex number
  empty : options.has kNonBlock = true →
    ((∃ newIndex after, readMessageIndex thread q options state.index state.shm =
        .returned (none, newIndex) after) ↔
      ∀ number, InRing (state.shm.queues q) number → (number : Int) ≤ state.index)
  waits : options.has kBlock = true →
    ((∃ parked, readMessageIndex thread q options state.index state.shm = .waiting parked) ↔
      ∀ number, InRing (state.shm.queues q) number → (number : Int) ≤ state.index)
  finishes : (∃ number, InRing (state.shm.queues q) number ∧ state.index < number) →
    ∃ msg newIndex after, readMessageIndex thread q options state.index state.shm =
      .returned (some msg, newIndex) after
  peeks : ∀ reply newIndex after,
    readMessageIndex thread q options state.index state.shm = .returned (reply, newIndex) after →
      ∃ consumedIndex consumedAfter,
        readMessageIndex thread q options.withoutPeek state.index state.shm =
          .returned (reply, consumedIndex) consumedAfter

/-- The number a call returns is determined by the options, apart from `kPeek`. -/
theorem NumberedReply.unique {first second : Options} {firstIndex secondIndex : Int}
    {firstMsg secondMsg : Message} {left right : Nat}
    (same : second.has kFromEnd = first.has kFromEnd)
    (one : NumberedReply queue first index firstMsg firstIndex left)
    (other : NumberedReply queue second index secondMsg secondIndex right) :
    firstMsg = secondMsg := by
  have numbers : left = right := by
    cases fromEnd : first.has kFromEnd with
    | true => rw [one.newest fromEnd, other.newest (same.trans fromEnd)]
    | false =>
      have here := one.oldest fromEnd right other.inRing other.unread
      have there := other.oldest (same.trans fromEnd) left one.inRing one.unread
      omega
  have message := one.message
  rw [numbers, other.message] at message
  exact (Option.some.inj message).symm

section NextCalls

variable {thread : ThreadId} {q : QueueId} {options : Options} {index : Int} {shm : Shm}
  (well : WellFormed shm) (legal : ReadIndexLegal options) (start : 0 ≤ index)
  (few : (shm.queues q).written.length < 2 ^ 31)
include well legal start few

variable {newIndex : Int} {after : Shm}

theorem reader_returned {msg : Message}
    (returned : readMessageIndex thread q options index shm = .returned (some msg, newIndex) after) :
    (after.queues q).pending = (shm.queues q).pending ∧
      ∃ number, NumberedReply (shm.queues q) options index msg newIndex number := by
  obtain ⟨_, pending, _, unread, offset, indexed⟩ := reader_call well legal start returned
  exact ⟨pending, _, indexed.numbered (well.rings q) few legal unread⟩

variable (thread) in
/-- With an unread number in the ring the call returns a message. -/
theorem reader_finishes
    (available : ¬ ∀ number, InRing (shm.queues q) number → (number : Int) ≤ index) :
    ∃ msg newIndex after, readMessageIndex thread q options index shm =
      .returned (some msg, newIndex) after := by
  have ready : (shm.queues q).mustWait (some index) = false := by
    rw [← Bool.not_eq_true, mustWait_iff (well.rings q) few]
    exact available
  obtain ⟨_, msg, newIndex, after, returned, _⟩ :=
    readMessageIndex_returned thread well legal ready start
  exact ⟨msg, newIndex, after, returned⟩

theorem reader_empty_iff (nonBlock : options.has kNonBlock = true) :
    (∃ newIndex after, readMessageIndex thread q options index shm =
        .returned (none, newIndex) after) ↔
      ∀ number, InRing (shm.queues q) number → (number : Int) ≤ index := by
  have wait := mustWait_iff (well.rings q) few index
  constructor
  · rintro ⟨newIndex, after, returned⟩
    obtain ⟨_, _, _, _, waits⟩ := reader_call well legal start returned
    exact wait.mp waits
  · intro passed
    have block : options.has kBlock = false := by
      simpa [nonBlock] using readLegal_nonBlock legal.1
    exact ⟨index, shm, readMessageIndex_empty legal (wait.mpr passed) block⟩

theorem reader_waits_iff (block : options.has kBlock = true) :
    (∃ parked, readMessageIndex thread q options index shm = .waiting parked) ↔
      ∀ number, InRing (shm.queues q) number → (number : Int) ≤ index := by
  constructor
  · rintro ⟨parked, waits⟩
    by_contra available
    obtain ⟨msg, newIndex, after, returned⟩ :=
      reader_finishes thread well legal start few available
    rw [waits] at returned
    cases returned
  · intro passed
    exact ⟨_, readMessageIndex_parked legal
      ((mustWait_iff (well.rings q) few index).mpr passed) block⟩

/-- A peek returns what the consuming call would return. -/
theorem reader_peeks {reply : Option Message}
    (returned : readMessageIndex thread q options index shm = .returned (reply, newIndex) after) :
    ∃ consumedIndex consumedAfter, readMessageIndex thread q options.withoutPeek index shm =
      .returned (reply, consumedIndex) consumedAfter := by
  obtain ⟨legalToo, _, sameBlock, sameEnd⟩ := withoutPeek_spec legal
  cases reply with
  | none =>
    obtain ⟨_, _, _, _, wait⟩ := reader_call well legal start returned
    have block : options.has kBlock = false := by
      by_contra blocks
      rw [readMessageIndex_parked legal wait (by simpa using blocks)] at returned
      cases returned
    exact ⟨index, shm, readMessageIndex_empty legalToo wait (sameBlock.trans block)⟩
  | some msg =>
    obtain ⟨_, number, numbered⟩ := reader_returned well legal start few returned
    have available : ¬ ∀ other, InRing (shm.queues q) other → (other : Int) ≤ index := by
      intro passed
      have behind := passed number numbered.inRing
      have unread := numbered.unread
      omega
    obtain ⟨consumed, consumedIndex, consumedAfter, returnedToo⟩ :=
      reader_finishes thread well legalToo start few available
    obtain ⟨_, _, numberedToo⟩ := reader_returned well legalToo start few returnedToo
    rw [numbered.unique sameEnd numberedToo]
    exact ⟨consumedIndex, consumedAfter, returnedToo⟩

end NextCalls

/-- One reader among any other clients: the numbers of the messages it consumes
strictly increase, the index left by each such call is the number of the message it
returned, and in every state it reaches its next call behaves as `NextCall` says.

Proof: by induction on the run the index is the number of a message that was written
(`Watching`); below 2^31 the slot arithmetic is exact. -/
theorem index_reads_increase {q : QueueId} {initial : Shm} {final : Watched}
    {events : List ReaderEvent} (fresh : Fresh initial)
    (run : Run (ReaderStep q) ⟨initial, 0⟩ events final)
    (few : (final.shm.queues q).written.length < 2 ^ 31) :
    ((events.filterMap taken).map Prod.snd).Pairwise (· < ·) ∧
      (∀ entry ∈ events.filterMap taken, 1 ≤ entry.2 ∧
        (final.shm.queues q).written[(entry.2 - 1).toNat]? = some entry.1) ∧
      ∀ thread options, ReadIndexLegal options → NextCall thread q options final := by
  have watching := run_watching fresh run few
  have well := watching.wellFormed
  have start := watching.start
  refine ⟨watching.increasing, ?_, ?_⟩
  · intro entry member
    obtain ⟨positive, _, message⟩ := watching.numbered entry member
    exact ⟨positive, message⟩
  · intro thread options legal
    refine ⟨fun msg newIndex after returned => reader_returned well legal start few returned,
      reader_empty_iff well legal start few, reader_waits_iff well legal start few, ?_,
      fun reply newIndex after returned => reader_peeks well legal start few returned⟩
    rintro ⟨number, inRing, unread⟩
    refine reader_finishes thread well legal start few ?_
    intro passed
    have behind := passed number inRing
    omega

/-- Two messages written over each other; the reader peeks at the survivor and then
consumes it. -/
def sampleReads : List ReaderEvent :=
  sampleEvents.map .other ++ [.read 1 ⟨5⟩ (some 19) 1, .read 1 kNonBlock (some 19) 2]

theorem sampleReads_run : ∃ final, Run (ReaderStep 0) ⟨sampleShm, 0⟩ sampleReads final ∧
    (final.shm.queues 0).written = [20, 19] := by
  refine ⟨_, .snoc (.snoc (.snoc (.snoc (.snoc (.snoc (.nil _)
    (.ofStep ⟨trivial, rfl⟩)) (.ofStep ⟨by decide, rfl⟩)) (.ofStep ⟨trivial, rfl⟩))
    (.ofStep ⟨by decide, rfl⟩)) (.ofRead (by decide) rfl)) (.ofRead (by decide) rfl), ?_⟩
  rfl

theorem index_reads_increase_sample : ∃ final,
    Run (ReaderStep 0) ⟨sampleShm, 0⟩ sampleReads final ∧ sampleReads.filterMap taken = [(19, 2)] ∧
      NextCall 1 0 kNonBlock final := by
  obtain ⟨final, run, written⟩ := sampleReads_run
  have increase := index_reads_increase sampleShm_fresh run (by rw [written]; decide)
  exact ⟨final, run, by decide, increase.2.2 1 kNonBlock (by decide)⟩

end Miranda.RawQueue
