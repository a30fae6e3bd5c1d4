import Miranda.RawQueue.Accounts

/-!
# The accounts across a drop

A drop that takes the last reference of a message on a queue with a recycle queue
trades it: two messages exchange their queues and an older message of the recycle
queue may lose its place. Here the elementary effects on the accounts are put
together for one trade, for one drop of any kind and, by induction, for all the
drops of a call.
-/

namespace Miranda.RawQueue

open LinkedList Function Multiset

variable {msg newMsg : Message} {q recycle : QueueId} {held refs : QueueId → Multiset Message}
  {shm : Shm} {assigned : QueueId → Finset Message} {free : QueueId → List Message} {after : Shm}
  {thread : ThreadId}

/-- A trade keeps every ring but that of the recycle queue, and forces the message
into that one. -/
theorem trade_elsewhere {before : Shm} (sameQueues : before.queues = shm.queues)
    (different : q ≠ recycle) (ok : RingOk (shm.queues recycle))
    (notPending : msg ∉ (shm.queues recycle).pending) (notHeld : msg ∉ held recycle)
    (balance : ∀ p, p ≠ q → refs p =
      (((trade q recycle msg newMsg shm).queues p).pending : Multiset Message) + held p) :
    Elsewhere q held before (trade q recycle msg newMsg shm) refs := by
  obtain ⟨_, _, absorbed, unchanged⟩ := trade_rings msg newMsg different ok
  have pending := absorbed.pending
  refine ⟨balance, ?_, ?_⟩
  · intro p isQ nodup
    rw [sameQueues] at nodup
    by_cases isRecycle : p = recycle
    · subst isRecycle
      rw [pending]
      exact BoundedFifo.force_nodup nodup notPending
    · rw [unchanged p isQ isRecycle]
      exact nodup
  · intro p isQ other member
    rw [sameQueues]
    by_cases isRecycle : p = recycle
    · subst isRecycle
      rw [pending] at member
      rcases BoundedFifo.mem_force member with before | rfl
      · exact .inl before
      · exact .inr notHeld
    · rw [unchanged p isQ isRecycle] at member
      exact .inl member

/-- Trading a message whose last reference was dropped for a free message of the
recycle queue.

Proof: the message and the free message leave the accounts; the message enters
again on the recycle queue, whose overriding write may evict an older one; the free
message enters again on the free list of the queue that dropped. -/
theorem Balanced.traded (balanced : Balanced assigned shm free refs)
    (ok : RingOk (shm.queues recycle)) (different : q ≠ recycle) (last : (refs q).count msg = 1)
    (available : (shm.queues recycle).freeMessages = some newMsg)
    (others : ∀ p, p ≠ q → refs p = ((shm.queues p).pending : Multiset Message) + held p) :
    ∃ newAssigned newFree newRefs, Reassigned assigned newAssigned ∧
      Balanced newAssigned (trade q recycle msg newMsg (shm.refCountSub msg)) newFree newRefs ∧
      newRefs q = (refs q).erase msg ∧
      Elsewhere q held shm (trade q recycle msg newMsg (shm.refCountSub msg)) newRefs := by
  have othersRecycle := others recycle (Ne.symm different)
  have member : msg ∈ refs q := count_pos.mp (by omega)
  have here := balanced.refs_assigned member
  have linked := balanced.linked recycle
  rw [available] at linked
  obtain ⟨rest, first, _⟩ := linked.pop
  have isFree : newMsg ∈ free recycle := by simp [first]
  have there := balanced.free_assigned isFree
  have notThere : msg ∉ assigned recycle := fun inside =>
    different (balanced.disjoint q recycle msg here inside)
  have notHere : newMsg ∉ assigned q := fun inside =>
    different (balanced.disjoint q recycle newMsg inside there)
  have distinct : msg ≠ newMsg := fun same => notThere (same ▸ there)
  have forgotten := balanced.forget last
  have left := forgotten.pop first
  have absent := absent_erase (balanced.absent here) recycle newMsg
  have absentNew := absent_insert
    (forgotten.absent (by rw [update_of_ne (Ne.symm different)]; exact there)) recycle
    (Ne.symm distinct)
  have one : (((takeFree recycle newMsg (shm.refCountSub msg)).refCountAdd msg).header
      msg).refCount = 1 := by
    rw [refCount_refCountAdd_same, refCount_takeFree_other _ distinct,
      balanced.refCount_lessened member, last]
    rfl
  have entered := (left.outside absent).adopt (q := recycle) absent one
  have same := takeFree_sameRing recycle newMsg (shm.refCountSub msg)
  have owned : update (update refs q ((refs q).erase msg)) recycle
      (msg ::ₘ update refs q ((refs q).erase msg) recycle) recycle =
      msg ::ₘ (((((takeFree recycle newMsg (shm.refCountSub msg)).refCountAdd msg).queues
        recycle).pending : Multiset Message) + held recycle) := by
    have pending := same.pending
    rw [Shm.refCountSub_queues] at pending
    rw [update_self, update_of_ne (Ne.symm different), Shm.refCountAdd_queues, pending,
      othersRecycle]
  obtain ⟨newFree, newRefs, stored, storedHere, storedOthers⟩ :=
    entered.overrideStore (same.ringOk ok) owned
  have okCounted : RingOk ((shm.refCountSub msg).queues recycle) := ok
  have unreferenced := balanced.not_referenced (Ne.symm different) here
  rw [othersRecycle, mem_add, not_or, mem_coe] at unreferenced
  refine ⟨_, _, newRefs, .exchange here there notThere notHere ?_ ?_ ?_,
    stored.push (q := q) absentNew, ?_,
    trade_elsewhere (Shm.refCountSub_queues shm msg).symm different ok unreferenced.1
      unreferenced.2 ?_⟩
  · simp [different]
  · simp [Ne.symm different]
  · intro p isQ isRecycle
    simp [isQ, isRecycle]
  · rw [storedOthers q different, update_of_ne different, update_self]
  · intro p isQ
    by_cases isRecycle : p = recycle
    · subst isRecycle
      rw [storedHere, trade, Shm.pushFree_other _ _ isQ]
    · obtain ⟨_, _, _, unchanged⟩ := trade_rings msg newMsg different okCounted
      rw [storedOthers p isRecycle, update_of_ne isRecycle, update_of_ne isQ, others p isQ,
        unchanged p isQ isRecycle, Shm.refCountSub_queues]

/-- What a returning drop does to the accounts. -/
theorem Balanced.released (balanced : Balanced assigned shm free refs) (well : WellFormed shm)
    (member : msg ∈ refs q)
    (others : ∀ p, p ≠ q → refs p = ((shm.queues p).pending : Multiset Message) + held p)
    (returned : release thread q msg shm = .returned () after) :
    ∃ newAssigned newFree newRefs, Reassigned assigned newAssigned ∧
      Balanced newAssigned after newFree newRefs ∧ newRefs q = (refs q).erase msg ∧
      Elsewhere q held shm after newRefs := by
  have positive := count_pos.mpr member
  have othersErased : ∀ p, p ≠ q → update refs q ((refs q).erase msg) p =
      ((shm.queues p).pending : Multiset Message) + held p := by
    intro p different
    rw [update_of_ne different]
    exact others p different
  have cases := release_cases thread q msg well
  rw [returned] at cases
  cases cases with
  | plain alone =>
    obtain ⟨newFree, balancedAfter⟩ := balanced.releasePlain member
    refine ⟨assigned, newFree, _, .refl assigned, balancedAfter, update_self .., ?_⟩
    refine .unchanged ?_ othersErased
    intro p different
    rw [releasePlain_other msg shm different]
  | counted shared =>
    rw [balanced.refCount_lessened member] at shared
    exact ⟨assigned, free, _, .refl assigned, balanced.countDown (by omega), update_self ..,
      .unchanged (fun _ _ => rfl) othersErased⟩
  | traded recycle newMsg points last available =>
    rw [balanced.refCount_lessened member] at last
    exact balanced.traded (well.rings recycle) (well.recycle_ne points) (by omega) available others

/-- What the drops of one call do to the accounts: each listed message loses one
reference of the queue. -/
theorem Balanced.dropped {messages : List Message} {kept : Multiset Message}
    (balanced : Balanced assigned shm free refs) (drops : Drops thread q messages shm after)
    (enough : refs q = kept + messages)
    (others : ∀ p, p ≠ q → refs p = ((shm.queues p).pending : Multiset Message) + held p) :
    ∃ newAssigned newFree newRefs, Reassigned assigned newAssigned ∧
      Balanced newAssigned after newFree newRefs ∧ newRefs q = kept ∧
      Elsewhere q held shm after newRefs := by
  induction drops generalizing assigned free refs with
  | done only =>
    refine ⟨assigned, free, refs, .refl assigned, balanced.ringOnly only, by simpa using enough, ?_⟩
    refine .unchanged ?_ others
    intro p different
    rw [only.others p different]
  | @drop msg rest before ready between after only well released _ ih =>
    have othersReady : ∀ p, p ≠ q →
        refs p = ((ready.queues p).pending : Multiset Message) + held p := by
      intro p different
      rw [only.others p different]
      exact others p different
    have member : msg ∈ refs q := by simp [enough]
    obtain ⟨midAssigned, midFree, midRefs, midReassigned, midBalanced, midHere, midElsewhere⟩ :=
      (balanced.ringOnly only).released well member othersReady released
    have bookkeeping : Elsewhere q held before ready refs := by
      refine .unchanged ?_ others
      intro p different
      rw [only.others p different]
    have midEnough : midRefs q = kept + rest := by
      rw [midHere, enough, ← cons_coe, add_cons, erase_cons_head]
    obtain ⟨newAssigned, newFree, newRefs, reassigned, balancedAfter, here, elsewhere⟩ :=
      ih midBalanced midEnough midElsewhere.refs
    exact ⟨newAssigned, newFree, newRefs, midReassigned.trans reassigned, balancedAfter, here,
      (bookkeeping.trans midElsewhere).trans elsewhere⟩

end Miranda.RawQueue
