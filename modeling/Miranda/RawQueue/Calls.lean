import Miranda.Lib.Runs
import Miranda.RawQueue.Releasing

/-!
# Whole calls on the queues

A client makes one call at a time; a call that would park is not taken, and a run
is any finite sequence of calls that return. What a call does outside the ring of
its queue is recorded by `Drops`: the listed messages lose one reference each, in
order, through the queue's own reference counting, and nothing else happens.

The recursive part is the read that empties the ring. Its characterisation is an
induction on the number of pending messages.
-/

namespace Miranda.RawQueue

open CircularBuffer

/-- Nothing but the ring bookkeeping of one queue changed. -/
structure RingOnly (q : QueueId) (before after : Shm) : Prop where
  header : after.header = before.header
  freeMessages : (after.queues q).freeMessages = (before.queues q).freeMessages
  recycle : (after.queues q).recycle = (before.queues q).recycle
  others : ∀ p, p ≠ q → after.queues p = before.queues p

theorem RingOnly.refl (q : QueueId) (shm : Shm) : RingOnly q shm shm :=
  ⟨rfl, rfl, rfl, fun _ _ => rfl⟩

variable {q : QueueId} {before : Shm} {dropped : List Message} {middle : Shm} {thread : ThreadId}
  {msg : Message} {shm : Shm}

theorem RingOnly.trans {first second third : Shm} (left : RingOnly q first second)
    (right : RingOnly q second third) :
    RingOnly q first third := by
  refine ⟨right.header.trans left.header, right.freeMessages.trans left.freeMessages,
    right.recycle.trans left.recycle, ?_⟩
  intro p different
  exact (right.others p different).trans (left.others p different)

/-- An update of one queue that keeps its free list and its recycle pointer. -/
theorem RingOnly.update (q : QueueId) (shm : Shm) {change : RawQueue → RawQueue}
    (freeMessages : (change (shm.queues q)).freeMessages = (shm.queues q).freeMessages)
    (recycle : (change (shm.queues q)).recycle = (shm.queues q).recycle) :
    RingOnly q shm (shm.updateQueue q change) := by
  refine ⟨rfl, ?_, ?_, ?_⟩
  · simpa using freeMessages
  · simpa using recycle
  · intro p different
    exact Shm.updateQueue_other shm change different

/-- Ring bookkeeping that leaves a ring in order keeps memory well formed. -/
theorem RingOnly.wellFormed {after : Shm} (only : RingOnly q before after)
    (well : WellFormed before) (ok : RingOk (after.queues q)) : WellFormed after := by
  refine well.of_queues ?_ ?_
  · intro p
    by_cases here : p = q
    · subst here
      exact only.recycle
    · rw [only.others p here]
  · intro p
    by_cases here : p = q
    · subst here
      exact ok
    · rw [only.others p here]
      exact well.rings p

/-- The listed messages lose one reference each, in order; otherwise only the ring
of the queue changes. -/
inductive Drops (thread : ThreadId) (q : QueueId) : List Message → Shm → Shm → Prop where
  | done {before after : Shm} (only : RingOnly q before after) : Drops thread q [] before after
  | drop {msg : Message} {rest : List Message} {before ready between after : Shm}
      (only : RingOnly q before ready) (wellFormed : WellFormed ready)
      (released : release thread q msg ready = .returned () between)
      (others : Drops thread q rest between after) :
      Drops thread q (msg :: rest) before after

/-- More ring bookkeeping at the end is absorbed. -/
theorem Drops.then {after : Shm} (drops : Drops thread q dropped before middle)
    (only : RingOnly q middle after) : Drops thread q dropped before after := by
  induction drops with
  | done first => exact .done (first.trans only)
  | drop first well released _ ih =>
    exact .drop first well released (ih only)

/-- So is ring bookkeeping at the beginning. -/
theorem Drops.after {after : Shm} (drops : Drops thread q dropped middle after)
    (only : RingOnly q before middle) : Drops thread q dropped before after := by
  cases drops with
  | done first => exact .done (only.trans first)
  | drop first well released others => exact .drop (only.trans first) well released others

theorem advanceStart_ringOnly (q : QueueId) (shm : Shm) : RingOnly q shm (advanceStart q shm) :=
  .update q shm rfl rfl

theorem appendMessage_ringOnly (q : QueueId) (msg : Message) (shm : Shm) :
    RingOnly q shm (appendMessage q msg shm) := by
  refine ⟨?_, ?_, ?_, fun p different => appendMessage_other msg shm different⟩
  all_goals
    unfold appendMessage broadcastReadable storeAtEnd
    split <;> simp [storeMessage]

theorem readCommonEnd_ringOnly (q : QueueId) (shm : Shm) :
    RingOnly q shm (readCommonEnd q shm) := by
  unfold readCommonEnd
  simp only
  split
  · split
    · exact .update q shm rfl rfl
    · exact .refl q shm
  · exact .refl q shm

/-- Waking writers changes nothing a ring is judged by. -/
theorem readCommonEnd_ring (q : QueueId) (shm : Shm) :
    (RingOk (shm.queues q) → RingOk ((readCommonEnd q shm).queues q)) ∧
      ((readCommonEnd q shm).queues q).pending = (shm.queues q).pending ∧
      ((readCommonEnd q shm).queues q).written = (shm.queues q).written ∧
      ((readCommonEnd q shm).queues q).queueLength = (shm.queues q).queueLength := by
  unfold readCommonEnd
  simp only
  split
  · split
    · rw [Shm.updateQueue_same]
      exact ⟨fun ok => ok.rewait _ _ _ _, rfl, rfl, rfl⟩
    · exact ⟨id, rfl, rfl, rfl⟩
  · exact ⟨id, rfl, rfl, rfl⟩

/-- What a finished call guarantees about the memory: well formed, the listed drops
on its queue, and recycled messages on the others. -/
structure CallSpec (thread : ThreadId) (q : QueueId) (dropped : List Message)
    (before after : Shm) : Prop where
  wellFormed : WellFormed after
  drops : Drops thread q dropped before after
  queueLength : (after.queues q).queueLength = (before.queues q).queueLength
  recycle : (after.queues q).recycle = (before.queues q).recycle
  recycled : ∀ p, p ≠ q → RecycledOnto q p before after

/-- Ring bookkeeping alone, as a finished call. -/
theorem CallSpec.ofRingOnly (thread : ThreadId) {after : Shm} (well : WellFormed before)
    (only : RingOnly q before after) (ok : RingOk (after.queues q))
    (queueLength : (after.queues q).queueLength = (before.queues q).queueLength) :
    CallSpec thread q [] before after := by
  refine ⟨only.wellFormed well ok, .done only, queueLength, only.recycle, ?_⟩
  intro p different
  exact .ofSameRing q (by rw [only.others p different]; exact .refl _)

/-- Append ring bookkeeping to a finished call. -/
theorem CallSpec.then {after : Shm} (spec : CallSpec thread q dropped before middle)
    (only : RingOnly q middle after) (ok : RingOk (after.queues q))
    (queueLength : (after.queues q).queueLength = (middle.queues q).queueLength) :
    CallSpec thread q dropped before after := by
  refine ⟨only.wellFormed spec.wellFormed ok, spec.drops.then only,
    queueLength.trans spec.queueLength, only.recycle.trans spec.recycle, ?_⟩
  intro p different
  have unchanged : RecycledOnto q p middle after :=
    .ofSameRing q (by rw [only.others p different]; exact .refl _)
  exact (spec.recycled p different).trans unchanged spec.recycle

/-- Put ring bookkeeping in front of a finished call. -/
theorem CallSpec.after {after : Shm} (only : RingOnly q before middle)
    (queueLength : (middle.queues q).queueLength = (before.queues q).queueLength)
    (spec : CallSpec thread q dropped middle after) : CallSpec thread q dropped before after := by
  refine ⟨spec.wellFormed, spec.drops.after only, spec.queueLength.trans queueLength,
    spec.recycle.trans only.recycle, ?_⟩
  intro p different
  have bookkeeping : RecycledOnto q p before middle :=
    .ofSameRing q (by rw [only.others p different]; exact .refl _)
  exact bookkeeping.trans (spec.recycled p different) only.recycle

/-- Put ring bookkeeping and one drop in front of a finished call. -/
theorem CallSpec.drop {ready between after : Shm} (only : RingOnly q before ready)
    (queueLength : (ready.queues q).queueLength = (before.queues q).queueLength)
    (wellReady : WellFormed ready) (released : release thread q msg ready = .returned () between)
    (spec : CallSpec thread q dropped between after) :
    CallSpec thread q (msg :: dropped) before after := by
  have releaseSpec := release_spec wellReady released
  have unchanged := Absorbed.ofSameRing releaseSpec.same
  refine ⟨spec.wellFormed, .drop only wellReady released spec.drops, ?_, ?_, ?_⟩
  · rw [spec.queueLength, unchanged.queueLength, queueLength]
  · rw [spec.recycle, unchanged.recycle, only.recycle]
  · intro p different
    have bookkeeping : RecycledOnto q p before ready :=
      .ofSameRing q (by rw [only.others p different]; exact .refl _)
    exact (bookkeeping.trans (releaseSpec.recycled p) only.recycle).trans
      (spec.recycled p different) (unchanged.recycle.trans only.recycle)

/-- A single drop, as a finished call. -/
theorem CallSpec.ofRelease {after : Shm} (well : WellFormed shm)
    (released : release thread q msg shm = .returned () after) :
    CallSpec thread q [msg] shm after := by
  have spec := release_spec well released
  exact .drop (.refl q shm) rfl well released
    (.ofRingOnly thread spec.wellFormed (.refl q after) (spec.wellFormed.rings q) rfl)

/-- One queue ran out of free messages for the recycling it was asked to do. -/
def PoolOverused {α : Type} (q : QueueId) (before : Shm) (outcome : Outcome α) : Prop :=
  (before.queues q).recycle ≠ none ∧ ∃ name, outcome = .died (.overusedPool name)

/-- A drop returns unless the pool of a recycle queue is overused. -/
theorem release_returns (thread : ThreadId) (q : QueueId) (msg : Message) (well : WellFormed shm) :
    (∃ after, release thread q msg shm = .returned () after) ∨
      PoolOverused q shm (release thread q msg shm) := by
  have cases := release_cases thread q msg well
  generalize release thread q msg shm = outcome at cases
  cases cases with
  | plain _ => exact .inl ⟨_, rfl⟩
  | counted _ => exact .inl ⟨_, rfl⟩
  | traded _ _ _ _ _ => exact .inl ⟨_, rfl⟩
  | overused recycle points _ => exact .inr ⟨by simp [points], _, rfl⟩

/-- One round of the emptying loop, in terms of the oldest message. -/
theorem drainLoop_succ (drop : Message → Shm → Outcome Unit) (q : QueueId) (fuel : Nat)
    (shm : Shm) :
    drainLoop drop q (fuel + 1) shm =
      if ((advanceStart q shm).queues q).dataStart = ((advanceStart q shm).queues q).dataEnd then
        .returned (oldest q shm) (advanceStart q shm)
      else (drop (oldest q shm) (advanceStart q shm)).bind fun _ shm =>
        drainLoop drop q fuel shm := by
  have sameCell : ((advanceStart q shm).queues q).data (shm.queues q).dataStart =
      oldest q shm := by
    simp [advanceStart, oldest]
  rw [← sameCell]
  rfl

/-- Emptying the ring returns its newest message and drops all the others, oldest
first.

Proof: induction on the loop's fuel, which bounds the pending messages. The start
index moves past the oldest message; either it was the only one, or it is dropped
and the remaining messages are those of a shorter ring. -/
theorem drainLoop_spec (thread : ThreadId) (q : QueueId) (fuel : Nat) (well : WellFormed shm)
    (occupied : (shm.queues q).dataStart ≠ (shm.queues q).dataEnd)
    (enough : (shm.queues q).pending.length ≤ fuel) :
    (∃ last after, drainLoop (release thread q) q fuel shm = .returned last after ∧
      (shm.queues q).pending.getLast? = some last ∧
      CallSpec thread q (shm.queues q).pending.dropLast shm after ∧
      (after.queues q).pending = [] ∧
      (after.queues q).written = (shm.queues q).written) ∨
      ((shm.queues q).pending.dropLast ≠ [] ∧
        PoolOverused q shm (drainLoop (release thread q) q fuel shm)) := by
  induction fuel generalizing shm with
  | zero =>
    have empty : (shm.queues q).pending = [] := List.eq_nil_of_length_eq_zero (by omega)
    exact absurd ((pending_eq_nil (well.rings q)).mp empty) occupied
  | succ fuel ih =>
    have head := pending_head (well.rings q) occupied
    have popped := RingOk.popped (well.rings q) occupied
    have only := advanceStart_ringOnly q shm
    have okAdvanced : RingOk ((advanceStart q shm).queues q) := by
      simpa [advanceStart] using popped
    have wellAdvanced := only.wellFormed well okAdvanced
    have headAdvanced : (shm.queues q).pending =
        oldest q shm :: ((advanceStart q shm).queues q).pending := by
      simpa [advanceStart, oldest] using head
    have sameLength : ((advanceStart q shm).queues q).queueLength =
        (shm.queues q).queueLength := by
      simp [advanceStart]
    have sameWritten : ((advanceStart q shm).queues q).written = (shm.queues q).written := by
      simp [advanceStart]
    rw [drainLoop_succ]
    split
    · rename_i single
      have empty := (pending_eq_nil okAdvanced).mpr single
      refine .inl ⟨_, _, rfl, ?_, ?_, empty, sameWritten⟩
      · rw [headAdvanced, empty]
        rfl
      · rw [headAdvanced, empty]
        exact .ofRingOnly thread well only okAdvanced sameLength
    · rename_i more
      have nonempty : ((advanceStart q shm).queues q).pending ≠ [] := by
        intro empty
        exact more ((pending_eq_nil okAdvanced).mp empty)
      have drops : (shm.queues q).pending.dropLast ≠ [] := by
        rw [headAdvanced, List.dropLast_cons_of_ne_nil nonempty]
        simp
      rcases release_returns thread q _ wellAdvanced with ⟨between, released⟩ | overused
      · have spec := release_spec wellAdvanced released
        have pendingBetween := spec.same.pending
        have writtenBetween := (Absorbed.ofSameRing spec.same).written
        have moreBetween : (between.queues q).dataStart ≠ (between.queues q).dataEnd := by
          intro equal
          apply more
          have empty := (pending_eq_nil (spec.wellFormed.rings q)).mpr equal
          rw [pendingBetween] at empty
          exact (pending_eq_nil okAdvanced).mp empty
        have shorter : (between.queues q).pending.length ≤ fuel := by
          rw [pendingBetween]
          rw [headAdvanced, List.length_cons] at enough
          omega
        rw [released]
        rcases ih spec.wellFormed moreBetween shorter with
          ⟨last, after, drained, isLast, rest, empty, written⟩ | ⟨_, overused⟩
        · refine .inl ⟨last, after, drained, ?_, ?_, empty, ?_⟩
          · rw [headAdvanced, List.getLast?_cons_of_ne_nil nonempty, ← pendingBetween]
            exact isLast
          · rw [headAdvanced, List.dropLast_cons_of_ne_nil nonempty, ← pendingBetween]
            exact .drop only sameLength wellAdvanced released rest
          · rw [written, writtenBetween, List.append_nil, sameWritten]
        · refine .inr ⟨drops, ?_, overused.2⟩
          have recycleBetween := (Absorbed.ofSameRing spec.same).recycle
          rw [← only.recycle, ← recycleBetween]
          exact overused.1
      · refine .inr ⟨drops, ?_, ?_⟩
        · rw [← only.recycle]
          exact overused.1
        · obtain ⟨name, died⟩ := overused.2
          exact ⟨name, by rw [died, Outcome.bind_died]⟩

end Miranda.RawQueue
