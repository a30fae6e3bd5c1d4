import Mathlib.Data.Finset.Card
import Mathlib.Data.Multiset.Count
import Mathlib.Tactic.Abel
import Miranda.Lib.LinkedList
import Miranda.RawQueue.Calls

/-!
# Accounts of messages

Every message is assigned to one queue, where it is either on the free list or
referenced. `Balanced` says so for given free lists and multisets of references,
without saying who holds the references: the rings, the clients, or a call that is
half done. The elementary effects of the calls are a message leaving or entering
the accounts and a reference gained or lost on a message that stays; what a drop
does is composed of these. Trading with a recycle queue lets two messages leave and
enter again with their queues exchanged.
-/

namespace Miranda.RawQueue

open LinkedList Function Multiset Finset

/-- The next pointers of all headers. -/
def nextOf (shm : Shm) : Message → Option Message := fun msg => (shm.header msg).next

/-- Assigned messages are free or referenced, and the headers agree. No message has more
references than its count can hold. -/
structure Balanced (assigned : QueueId → Finset Message) (shm : Shm)
    (free : QueueId → List Message) (refs : QueueId → Multiset Message) : Prop where
  linked : ∀ q, Linked (nextOf shm) (shm.queues q).freeMessages (free q)
  nodup : ∀ q, (free q).Nodup
  disjoint : ∀ p q msg, msg ∈ assigned p → msg ∈ assigned q → p = q
  idle : ∀ q msg, msg ∈ free q → msg ∉ refs q
  counted : ∀ q msg, msg ∈ refs q → (shm.header msg).refCount = (refs q).count msg
  few : ∀ q msg, (refs q).count msg < 2 ^ 31
  covered : ∀ q msg, msg ∈ assigned q ↔ msg ∈ free q ∨ msg ∈ refs q

section Headers

variable (shm : Shm) (msg other : Message)

@[simp] theorem nextOf_refCountAdd : nextOf (shm.refCountAdd msg) = nextOf shm := by
  funext other
  simp only [nextOf, Shm.refCountAdd, Shm.updateHeader]
  split <;> simp_all

@[simp] theorem nextOf_refCountSub : nextOf (shm.refCountSub msg) = nextOf shm := by
  funext other
  simp only [nextOf, Shm.refCountSub, Shm.updateHeader]
  split <;> simp_all

@[simp] theorem nextOf_takeFree (q : QueueId) : nextOf (takeFree q msg shm) = nextOf shm := by
  funext other
  simp only [nextOf, takeFree, Shm.setRefCount, Shm.updateHeader, Shm.updateQueue_header]
  split <;> simp_all

@[simp] theorem nextOf_pushFree (q : QueueId) :
    nextOf (shm.pushFree q msg) = update (nextOf shm) msg (shm.queues q).freeMessages := by
  funext other
  simp only [nextOf, Shm.pushFree, Shm.updateHeader, Shm.updateQueue_header, update_apply]
  split <;> rfl

theorem refCount_refCountAdd_same :
    ((shm.refCountAdd msg).header msg).refCount = int32 ((shm.header msg).refCount + 1) := by
  simp [Shm.refCountAdd, Shm.updateHeader]

theorem refCount_refCountSub_same :
    ((shm.refCountSub msg).header msg).refCount = int32 ((shm.header msg).refCount - 1) := by
  simp [Shm.refCountSub, Shm.updateHeader]

variable {msg other} (different : other ≠ msg)
include different

theorem refCount_refCountAdd_other :
    ((shm.refCountAdd msg).header other).refCount = (shm.header other).refCount := by
  simp [Shm.refCountAdd, Shm.updateHeader, different]

theorem refCount_refCountSub_other :
    ((shm.refCountSub msg).header other).refCount = (shm.header other).refCount := by
  simp [Shm.refCountSub, Shm.updateHeader, different]

theorem refCount_takeFree_other (q : QueueId) :
    ((takeFree q msg shm).header other).refCount = (shm.header other).refCount := by
  simp [takeFree, Shm.setRefCount, Shm.updateHeader, different]

end Headers

theorem refCount_pushFree (shm : Shm) (q : QueueId) (msg other : Message) :
    ((shm.pushFree q msg).header other).refCount = (shm.header other).refCount := by
  simp only [Shm.pushFree, Shm.updateHeader, Shm.updateQueue_header]
  split <;> simp_all

theorem refCount_takeFree_same (shm : Shm) (q : QueueId) (msg : Message) :
    ((takeFree q msg shm).header msg).refCount = 1 := by
  simp [takeFree, Shm.setRefCount, Shm.updateHeader]

variable {msg : Message} {assigned : QueueId → Finset Message} {q : QueueId}
  {held refs : QueueId → Multiset Message}

/-- A message outside the accounts stays outside when another one leaves. -/
theorem absent_erase (absent : ∀ p, msg ∉ assigned p) (q : QueueId) (other : Message) :
    ∀ p, msg ∉ update assigned q ((assigned q).erase other) p := by
  refine (forall_update_iff assigned fun _ messages => msg ∉ messages).mpr ⟨?_, fun p _ => absent p⟩
  exact fun inside => absent q (Finset.mem_of_mem_erase inside)

/-- A message outside the accounts stays outside when another one enters. -/
theorem absent_insert {other : Message} (absent : ∀ p, msg ∉ assigned p) (q : QueueId)
    (distinct : msg ≠ other) :
    ∀ p, msg ∉ update assigned q (insert other (assigned q)) p := by
  refine (forall_update_iff assigned fun _ messages => msg ∉ messages).mpr ⟨?_, fun p _ => absent p⟩
  rw [mem_insert, not_or]
  exact ⟨distinct, absent q⟩

namespace Balanced

variable {assigned : QueueId → Finset Message} {shm : Shm} {free : QueueId → List Message}
  {refs : QueueId → Multiset Message} (balanced : Balanced assigned shm free refs)
include balanced

variable {msg : Message} {q p : QueueId} {after : Shm} {header : Message}

theorem refs_assigned (referenced : msg ∈ refs q) :
    msg ∈ assigned q :=
  (balanced.covered q msg).mpr (.inr referenced)

theorem free_assigned (isFree : msg ∈ free q) : msg ∈ assigned q :=
  (balanced.covered q msg).mpr (.inl isFree)

/-- A message is referenced through one queue only. -/
theorem single (here : msg ∈ refs p) (there : msg ∈ refs q) :
    p = q :=
  balanced.disjoint p q msg (balanced.refs_assigned here) (balanced.refs_assigned there)

/-- The free and the referenced messages of a queue add up. -/
theorem card_assigned (q : QueueId) :
    (free q).length + (refs q).toFinset.card = (assigned q).card := by
  have parts : assigned q = (free q).toFinset ∪ (refs q).toFinset := by
    ext msg
    simp [balanced.covered q msg]
  have apart : Disjoint (free q).toFinset (refs q).toFinset := by
    rw [Finset.disjoint_left]
    intro msg isFree referenced
    exact balanced.idle q msg (List.mem_toFinset.mp isFree) (mem_toFinset.mp referenced)
  rw [parts, card_union_of_disjoint apart, List.toFinset_card_of_nodup (balanced.nodup q)]

/-- Memory that agrees on the headers and the free lists is balanced the same way. -/
theorem transfer (next : nextOf after = nextOf shm)
    (refCount : ∀ msg, (∃ q, msg ∈ refs q) → (after.header msg).refCount = (shm.header msg).refCount)
    (freeMessages : ∀ q, (after.queues q).freeMessages = (shm.queues q).freeMessages) :
    Balanced assigned after free refs := by
  refine ⟨?_, balanced.nodup, balanced.disjoint, balanced.idle, ?_, balanced.few,
    balanced.covered⟩
  · intro q
    rw [next, freeMessages]
    exact balanced.linked q
  · intro q msg referenced
    rw [refCount msg ⟨q, referenced⟩]
    exact balanced.counted q msg referenced

theorem ringOnly (only : RingOnly q shm after) :
    Balanced assigned after free refs := by
  refine balanced.transfer ?_ ?_ ?_
  · unfold nextOf
    rw [only.header]
  · intro msg _
    rw [only.header]
  · intro p
    by_cases here : p = q
    · subst here
      exact only.freeMessages
    · rw [only.others p here]

/-- New accounts for one queue, next to the old ones for the others. -/
theorem updated {newAssigned : Finset Message} {newFree : List Message} {newRefs : Multiset Message}
    (linked : Linked (nextOf after) (after.queues q).freeMessages newFree)
    (linkedOthers : ∀ p, p ≠ q → Linked (nextOf after) (after.queues p).freeMessages (free p))
    (nodup : newFree.Nodup) (apart : ∀ p, p ≠ q → ∀ msg ∈ newAssigned, msg ∉ assigned p)
    (idle : ∀ msg ∈ newFree, msg ∉ newRefs)
    (counted : ∀ msg ∈ newRefs, (after.header msg).refCount = newRefs.count msg)
    (countedOthers : ∀ p, p ≠ q → ∀ msg ∈ refs p,
      (after.header msg).refCount = (shm.header msg).refCount)
    (few : ∀ msg, newRefs.count msg < 2 ^ 31)
    (covered : ∀ msg, msg ∈ newAssigned ↔ msg ∈ newFree ∨ msg ∈ newRefs) :
    Balanced (update assigned q newAssigned) after (update free q newFree)
      (update refs q newRefs) := by
  refine ⟨?_, ?_, ?_, ?_, ?_, ?_, ?_⟩
  · exact (forall_update_iff free _).mpr ⟨linked, linkedOthers⟩
  · exact (forall_update_iff free _).mpr
      ⟨nodup, fun p _ => balanced.nodup p⟩
  · intro first second msg inFirst inSecond
    by_cases firstHere : first = q <;> by_cases secondHere : second = q
    · rw [firstHere, secondHere]
    · subst firstHere
      rw [update_self] at inFirst
      rw [update_of_ne secondHere] at inSecond
      exact absurd inSecond (apart second secondHere msg inFirst)
    · subst secondHere
      rw [update_self] at inSecond
      rw [update_of_ne firstHere] at inFirst
      exact absurd inFirst (apart first firstHere msg inSecond)
    · rw [update_of_ne firstHere] at inFirst
      rw [update_of_ne secondHere] at inSecond
      exact balanced.disjoint first second msg inFirst inSecond
  · intro p
    by_cases here : p = q
    · subst here
      rw [update_self, update_self]
      exact idle
    · rw [update_of_ne here, update_of_ne here]
      exact balanced.idle p
  · refine (forall_update_iff refs fun _ messages => ∀ msg ∈ messages,
      (after.header msg).refCount = messages.count msg).mpr ⟨counted, ?_⟩
    intro p here msg referenced
    rw [countedOthers p here msg referenced]
    exact balanced.counted p msg referenced
  · exact (forall_update_iff refs fun _ messages => ∀ msg, messages.count msg < 2 ^ 31).mpr
      ⟨few, fun p _ => balanced.few p⟩
  · intro p
    by_cases here : p = q
    · subst here
      rw [update_self, update_self, update_self]
      exact covered
    · rw [update_of_ne here, update_of_ne here, update_of_ne here]
      exact balanced.covered p

/-- A message assigned to one queue is not referenced through another. -/
theorem not_referenced (different : p ≠ q) (here : msg ∈ assigned q) : msg ∉ refs p :=
  fun there => different (balanced.disjoint p q msg (balanced.refs_assigned there) here)

/-- Taking a message from its queue takes it out of the accounts. -/
theorem absent (here : msg ∈ assigned q) :
    ∀ p, msg ∉ update assigned q ((assigned q).erase msg) p := by
  refine (forall_update_iff assigned fun _ messages => msg ∉ messages).mpr ⟨by simp, ?_⟩
  exact fun p different there => different (balanced.disjoint p q msg there here)

/-- The count of a referenced message, less one, is what the header holds after a drop. -/
theorem refCount_lessened (member : msg ∈ refs q) :
    ((shm.refCountSub msg).header msg).refCount = ((refs q).count msg : Int) - 1 := by
  have positive := count_pos.mpr member
  have few := balanced.few q msg
  rw [refCount_refCountSub_same, balanced.counted q msg member]
  exact int32_of_bounds (by omega) (by omega)

/-- One reference less, for the messages that are accounted for without it. -/
theorem lessen {left : Finset Message} (member : msg ∈ refs q) (fewer : left ⊆ assigned q)
    (covered : ∀ other, other ∈ left ↔ other ∈ free q ∨ other ∈ (refs q).erase msg) :
    Balanced (update assigned q left) (shm.refCountSub msg) free
      (update refs q ((refs q).erase msg)) := by
  rw [← update_eq_self q free]
  refine balanced.updated ?_ ?_ (balanced.nodup q) ?_ ?_ ?_ ?_ ?_ covered
  · rw [nextOf_refCountSub]
    exact balanced.linked q
  · intro p _
    rw [nextOf_refCountSub]
    exact balanced.linked p
  · intro p different other inside there
    exact different (balanced.disjoint p q other there (fewer inside))
  · intro other isFree referenced
    exact balanced.idle q other isFree (mem_of_mem_erase referenced)
  · intro other referenced
    by_cases same : other = msg
    · subst same
      have positive := count_pos.mpr member
      rw [balanced.refCount_lessened member, count_erase_self]
      omega
    · rw [refCount_refCountSub_other shm same, count_erase_of_ne same]
      exact balanced.counted q other (mem_of_mem_erase referenced)
  · intro p different other referenced
    refine refCount_refCountSub_other shm ?_
    rintro rfl
    exact different (balanced.single referenced member)
  · intro other
    exact Nat.lt_of_le_of_lt (count_le_of_le other (erase_le msg _)) (balanced.few q other)

/-- A message whose last reference goes away leaves the accounts. -/
theorem forget (last : (refs q).count msg = 1) :
    Balanced (update assigned q ((assigned q).erase msg)) (shm.refCountSub msg) free
      (update refs q ((refs q).erase msg)) := by
  have member : msg ∈ refs q := count_pos.mp (by omega)
  have gone : msg ∉ (refs q).erase msg := by
    rw [← count_eq_zero, count_erase_self]
    omega
  refine balanced.lessen member (Finset.erase_subset msg _) ?_
  intro other
  rw [mem_erase, balanced.covered q other]
  constructor
  · rintro ⟨different, isFree | referenced⟩
    · exact .inl isFree
    · exact .inr ((mem_erase_of_ne different).mpr referenced)
  · rintro (isFree | referenced)
    · refine ⟨?_, .inl isFree⟩
      rintro rfl
      exact balanced.idle q other isFree member
    · exact ⟨fun same => gone (same ▸ referenced), .inr (mem_of_mem_erase referenced)⟩

/-- The head of a free list leaves the accounts. -/
theorem pop {rest : List Message} (available : free q = header :: rest) :
    Balanced (update assigned q ((assigned q).erase header)) (takeFree q header shm)
      (update free q rest) refs := by
  have isFree : header ∈ free q := by simp [available]
  have nodup := balanced.nodup q
  rw [available, List.nodup_cons] at nodup
  have linked := balanced.linked q
  rw [available] at linked
  rw [← update_eq_self q refs]
  refine balanced.updated ?_ ?_ nodup.2 ?_ ?_ ?_ ?_ (balanced.few q) ?_
  · rw [nextOf_takeFree]
    simpa [takeFree, nextOf] using linked.2
  · intro p different
    rw [nextOf_takeFree, takeFree_other header shm different]
    exact balanced.linked p
  · intro p different other inside there
    exact different (balanced.disjoint p q other there (Finset.mem_of_mem_erase inside))
  · intro other inRest
    exact balanced.idle q other (by simp [available, inRest])
  · intro other referenced
    have different : other ≠ header := fun same => balanced.idle q header isFree (same ▸ referenced)
    rw [refCount_takeFree_other shm different]
    exact balanced.counted q other referenced
  · intro p different other referenced
    refine refCount_takeFree_other shm ?_ q
    rintro rfl
    exact balanced.not_referenced different (balanced.free_assigned isFree) referenced
  · intro other
    rw [mem_erase, balanced.covered q other, available, List.mem_cons]
    constructor
    · rintro ⟨different, (same | inRest) | referenced⟩
      · exact absurd same different
      · exact .inl inRest
      · exact .inr referenced
    · rintro (inRest | referenced)
      · exact ⟨fun same => nodup.1 (same ▸ inRest), .inl (.inr inRest)⟩
      · exact ⟨fun same => balanced.idle q header isFree (same ▸ referenced), .inr referenced⟩

/-- The count of a message outside the accounts does not matter. -/
theorem outside (absent : ∀ p, msg ∉ assigned p) :
    Balanced assigned (shm.refCountAdd msg) free refs := by
  refine balanced.transfer (nextOf_refCountAdd shm msg) ?_ (fun _ => rfl)
  rintro other ⟨p, referenced⟩
  refine refCount_refCountAdd_other shm ?_
  rintro rfl
  exact absent p (balanced.refs_assigned referenced)

/-- A message outside the accounts may be assigned to any queue. -/
theorem insert_apart (absent : ∀ p, msg ∉ assigned p) (p : QueueId) (different : p ≠ q)
    (other : Message) (inside : other ∈ insert msg (assigned q)) : other ∉ assigned p := by
  intro there
  rcases mem_insert.mp inside with rfl | before
  · exact absent p there
  · exact different (balanced.disjoint p q other there before)

/-- A message outside the accounts enters them with one reference. -/
theorem adopt (absent : ∀ p, msg ∉ assigned p) (one : (shm.header msg).refCount = 1) :
    Balanced (update assigned q (insert msg (assigned q))) shm free
      (update refs q (msg ::ₘ refs q)) := by
  have unreferenced : ∀ p, msg ∉ refs p := fun p referenced =>
    absent p (balanced.refs_assigned referenced)
  rw [← update_eq_self q free]
  refine balanced.updated (balanced.linked q) (fun p _ => balanced.linked p) (balanced.nodup q)
    (balanced.insert_apart absent) ?_ ?_ (fun _ _ _ _ => rfl) ?_ ?_
  · intro other isFree referenced
    rcases mem_cons.mp referenced with rfl | before
    · exact absent q (balanced.free_assigned isFree)
    · exact balanced.idle q other isFree before
  · intro other referenced
    by_cases same : other = msg
    · subst same
      rw [count_cons_self, count_eq_zero.mpr (unreferenced q), one]
      rfl
    · rw [count_cons_of_ne same]
      exact balanced.counted q other ((mem_cons.mp referenced).resolve_left same)
  · intro other
    by_cases same : other = msg
    · subst same
      rw [count_cons_self, count_eq_zero.mpr (unreferenced q)]
      decide
    · rw [count_cons_of_ne same]
      exact balanced.few q other
  · intro other
    rw [mem_insert, Multiset.mem_cons, balanced.covered q other]
    tauto

/-- A message outside the accounts enters them on a free list. -/
theorem push (absent : ∀ p, msg ∉ assigned p) :
    Balanced (update assigned q (insert msg (assigned q))) (shm.pushFree q msg)
      (update free q (msg :: free q)) refs := by
  have notFree : ∀ p, msg ∉ free p := fun p isFree => absent p (balanced.free_assigned isFree)
  rw [← update_eq_self q refs]
  refine balanced.updated ?_ ?_ ?_ (balanced.insert_apart absent) ?_ ?_ ?_ (balanced.few q) ?_
  · rw [nextOf_pushFree, Shm.pushFree_same]
    exact (balanced.linked q).push (notFree q)
  · intro p different
    rw [nextOf_pushFree, Shm.pushFree_other _ _ different]
    refine (balanced.linked p).congr ?_
    intro other isFree
    refine update_of_ne ?_ _ _
    rintro rfl
    exact notFree p isFree
  · exact List.nodup_cons.mpr ⟨notFree q, balanced.nodup q⟩
  · intro other isFree referenced
    rcases List.mem_cons.mp isFree with rfl | before
    · exact absent q (balanced.refs_assigned referenced)
    · exact balanced.idle q other before referenced
  · intro other referenced
    rw [refCount_pushFree]
    exact balanced.counted q other referenced
  · intro p _ other _
    exact refCount_pushFree shm q msg other
  · intro other
    rw [mem_insert, List.mem_cons, balanced.covered q other]
    tauto

/-- One more reference to a message that has one, if its count can hold it. -/
theorem countUp (member : msg ∈ refs q) (room : (refs q).count msg + 1 < 2 ^ 31) :
    Balanced assigned (shm.refCountAdd msg) free (update refs q (msg ::ₘ refs q)) := by
  rw [← update_eq_self q free, ← update_eq_self q assigned]
  refine balanced.updated ?_ ?_ (balanced.nodup q) ?_ ?_ ?_ ?_ ?_ ?_
  · rw [nextOf_refCountAdd]
    exact balanced.linked q
  · intro p _
    rw [nextOf_refCountAdd]
    exact balanced.linked p
  · intro p different other here there
    exact different (balanced.disjoint p q other there here)
  · intro other isFree referenced
    rcases mem_cons.mp referenced with rfl | before
    · exact balanced.idle q other isFree member
    · exact balanced.idle q other isFree before
  · intro other referenced
    by_cases same : other = msg
    · subst same
      rw [refCount_refCountAdd_same, count_cons_self, balanced.counted q other member]
      exact int32_of_bounds (by omega) (by omega)
    · rw [refCount_refCountAdd_other shm same, count_cons_of_ne same]
      exact balanced.counted q other ((mem_cons.mp referenced).resolve_left same)
  · intro p different other referenced
    refine refCount_refCountAdd_other shm ?_
    rintro rfl
    exact different (balanced.single referenced member)
  · intro other
    by_cases same : other = msg
    · subst same
      rw [count_cons_self]
      exact room
    · rw [count_cons_of_ne same]
      exact balanced.few q other
  · intro other
    rw [Multiset.mem_cons, balanced.covered q other]
    constructor
    · tauto
    · rintro (isFree | rfl | referenced)
      · exact .inl isFree
      · exact .inr member
      · exact .inr referenced

/-- One reference less to a message that keeps another. -/
theorem countDown (shared : 2 ≤ (refs q).count msg) :
    Balanced assigned (shm.refCountSub msg) free (update refs q ((refs q).erase msg)) := by
  have member : msg ∈ refs q := count_pos.mp (by omega)
  have stays : msg ∈ (refs q).erase msg := by
    rw [← count_pos, count_erase_self]
    omega
  rw [← update_eq_self q assigned]
  refine balanced.lessen member subset_rfl ?_
  intro other
  rw [balanced.covered q other]
  by_cases same : other = msg
  · subst same
    simp [member, stays]
  · rw [mem_erase_of_ne same]

/-- Allocation moves a message from the free list to the references. -/
theorem taken (available : (shm.queues q).freeMessages = some header) :
    header ∉ refs q ∧ ∃ newFree, Balanced assigned (takeFree q header shm) newFree
      (update refs q (header ::ₘ refs q)) := by
  have linked := balanced.linked q
  rw [available] at linked
  obtain ⟨rest, first, _⟩ := linked.pop
  have isFree : header ∈ free q := by simp [first]
  have here := balanced.free_assigned isFree
  have entered := (balanced.pop first).adopt (q := q) (balanced.absent here)
    (refCount_takeFree_same shm q header)
  rw [update_self, update_idem, insert_erase here, update_eq_self] at entered
  exact ⟨balanced.idle q header isFree, _, entered⟩

/-- A drop on a queue without a recycle queue. -/
theorem releasePlain (member : msg ∈ refs q) :
    ∃ newFree, Balanced assigned (RawQueue.releasePlain q msg shm) newFree
      (update refs q ((refs q).erase msg)) := by
  have positive := count_pos.mpr member
  unfold RawQueue.releasePlain
  rw [balanced.refCount_lessened member]
  split
  · rename_i zero
    have last : (refs q).count msg = 1 := by omega
    have here := balanced.refs_assigned member
    have entered := (balanced.forget last).push (q := q) (balanced.absent here)
    rw [update_self, update_idem, insert_erase here, update_eq_self] at entered
    exact ⟨_, entered⟩
  · exact ⟨free, balanced.countDown (by omega)⟩

/-- An overriding write on a queue without a recycle queue: the new message's
reference goes into the ring and an evicted message loses the ring's reference. -/
theorem overrideStore {held : Multiset Message} (ok : RingOk (shm.queues q))
    (owned : refs q = msg ::ₘ (((shm.queues q).pending : Multiset Message) + held)) :
    ∃ newFree newRefs, Balanced assigned (RawQueue.overrideStore q msg shm) newFree newRefs ∧
      newRefs q =
        (((RawQueue.overrideStore q msg shm).queues q).pending : Multiset Message) + held ∧
      ∀ p, p ≠ q → newRefs p = refs p := by
  rcases overrideStore_cases q msg shm with ⟨room, stored⟩ | ⟨full, stored⟩ <;> rw [stored]
  · obtain ⟨_, pending, _⟩ := appendMessage_ring msg ok room
    refine ⟨free, refs, balanced.ringOnly (appendMessage_ringOnly q msg shm), ?_, fun _ _ => rfl⟩
    rw [owned, pending, ← coe_add, Multiset.coe_singleton, ← singleton_add]
    abel
  · obtain ⟨evictedOk, head, room⟩ :=
      advanceStart_evicted ok full (releasePlain_sameRing q _ shm)
    obtain ⟨_, pending, _⟩ := appendMessage_ring msg evictedOk room
    rw [head, ← cons_coe] at owned
    have member : oldest q shm ∈ refs q := by simp [owned]
    obtain ⟨newFree, released⟩ := balanced.releasePlain member
    refine ⟨newFree, _, (released.ringOnly (advanceStart_ringOnly q _)).ringOnly
      (appendMessage_ringOnly q msg _), ?_, fun p different => update_of_ne different _ _⟩
    rw [update_self, owned, pending, ← coe_add, Multiset.coe_singleton,
      cons_add, Multiset.cons_swap, erase_cons_head, ← singleton_add]
    abel

end Balanced

/-- Messages may change queues, but no queue gains or loses any and none appears or
disappears. -/
structure Reassigned (before after : QueueId → Finset Message) : Prop where
  card : ∀ q, (after q).card = (before q).card
  everywhere : ∀ msg, (∃ q, msg ∈ after q) ↔ ∃ q, msg ∈ before q

theorem Reassigned.refl (assigned : QueueId → Finset Message) : Reassigned assigned assigned :=
  ⟨fun _ => rfl, fun _ => .rfl⟩

theorem Reassigned.trans {first second third : QueueId → Finset Message}
    (left : Reassigned first second) (right : Reassigned second third) :
    Reassigned first third :=
  ⟨fun q => (right.card q).trans (left.card q),
    fun msg => (right.everywhere msg).trans (left.everywhere msg)⟩

/-- Two queues exchange one message each. -/
theorem Reassigned.exchange {before after : QueueId → Finset Message} {recycle : QueueId}
    {newMsg : Message} (here : msg ∈ before q) (there : newMsg ∈ before recycle)
    (notThere : msg ∉ before recycle) (notHere : newMsg ∉ before q)
    (afterHere : after q = insert newMsg ((before q).erase msg))
    (afterThere : after recycle = insert msg ((before recycle).erase newMsg))
    (afterOthers : ∀ p, p ≠ q → p ≠ recycle → after p = before p) : Reassigned before after := by
  refine ⟨?_, ?_⟩
  · intro p
    by_cases isQ : p = q
    · rw [isQ, afterHere, card_insert_of_notMem, Finset.card_erase_add_one here]
      exact fun inside => notHere (Finset.mem_of_mem_erase inside)
    · by_cases isRecycle : p = recycle
      · rw [isRecycle, afterThere, card_insert_of_notMem, Finset.card_erase_add_one there]
        exact fun inside => notThere (Finset.mem_of_mem_erase inside)
      · rw [afterOthers p isQ isRecycle]
  · intro other
    constructor
    · rintro ⟨p, inside⟩
      by_cases isQ : p = q
      · rw [isQ, afterHere] at inside
        rcases mem_insert.mp inside with rfl | before
        · exact ⟨recycle, there⟩
        · exact ⟨q, Finset.mem_of_mem_erase before⟩
      · by_cases isRecycle : p = recycle
        · rw [isRecycle, afterThere] at inside
          rcases mem_insert.mp inside with rfl | before
          · exact ⟨q, here⟩
          · exact ⟨recycle, Finset.mem_of_mem_erase before⟩
        · exact ⟨p, afterOthers p isQ isRecycle ▸ inside⟩
    · rintro ⟨p, inside⟩
      by_cases isMsg : other = msg
      · exact ⟨recycle, by simp [afterThere, isMsg]⟩
      · by_cases isNew : other = newMsg
        · exact ⟨q, by simp [afterHere, isNew]⟩
        · refine ⟨p, ?_⟩
          by_cases isQ : p = q
          · subst isQ
            rw [afterHere]
            exact mem_insert_of_mem (mem_erase.mpr ⟨isMsg, inside⟩)
          · by_cases isRecycle : p = recycle
            · subst isRecycle
              rw [afterThere]
              exact mem_insert_of_mem (mem_erase.mpr ⟨isNew, inside⟩)
            · rw [afterOthers p isQ isRecycle]
              exact inside

/-- What a drop on one queue does to the accounts of the others. The references
outside their rings stay as they are, and a message that newly appears in a ring
had no reference outside it. -/
structure Elsewhere (q : QueueId) (held : QueueId → Multiset Message) (before after : Shm)
    (refs : QueueId → Multiset Message) : Prop where
  refs : ∀ p, p ≠ q → refs p = ((after.queues p).pending : Multiset Message) + held p
  nodup : ∀ p, p ≠ q → (before.queues p).pending.Nodup → (after.queues p).pending.Nodup
  fresh : ∀ p, p ≠ q → ∀ msg ∈ (after.queues p).pending,
    msg ∈ (before.queues p).pending ∨ msg ∉ held p

/-- Nothing happens to the queues that keep their rings. -/
theorem Elsewhere.unchanged {before after : Shm}
    (same : ∀ p, p ≠ q → (after.queues p).pending = (before.queues p).pending)
    (balance : ∀ p, p ≠ q → refs p = ((before.queues p).pending : Multiset Message) + held p) :
    Elsewhere q held before after refs := by
  refine ⟨?_, ?_, ?_⟩
  · intro p different
    rw [same p different]
    exact balance p different
  · intro p different nodup
    rw [same p different]
    exact nodup
  · intro p different msg member
    rw [same p different] at member
    exact .inl member

theorem Elsewhere.trans {firstRefs : QueueId → Multiset Message} {first second third : Shm}
    (left : Elsewhere q held first second firstRefs) (right : Elsewhere q held second third refs) :
    Elsewhere q held first third refs := by
  refine ⟨right.refs, ?_, ?_⟩
  · intro p different nodup
    exact right.nodup p different (left.nodup p different nodup)
  · intro p different msg member
    rcases right.fresh p different msg member with before | outside
    · exact left.fresh p different msg before
    · exact .inr outside

end Miranda.RawQueue
