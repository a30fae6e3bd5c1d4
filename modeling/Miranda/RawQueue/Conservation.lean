import Miranda.RawQueue.Ledger

/-!
# Messages are conserved

The constructor gives each queue a pool of its own. Whatever order whole calls come
in, every message of every pool stays accounted for, and every queue keeps the
number of messages it was given, also while messages are traded with a recycle
queue. The one condition is that no message gets more references than a 32-bit count
can hold.
-/

namespace Miranda.RawQueue

open LinkedList Function Runs List Multiset

/-- Every queue starts with a pool of its own on its free list. -/
structure Stocked (shm : Shm) (pool : QueueId → List Message) : Prop where
  linked : ∀ q, Linked (nextOf shm) (shm.queues q).freeMessages (pool q)
  nodup : ∀ q, (pool q).Nodup
  apart : ∀ p q msg, msg ∈ pool p → msg ∈ pool q → p = q
  size : ∀ q, ((pool q).length : Int) = (shm.queues q).queueLength + kExtraMessages

variable {cells : List Message} {previous : Option Message} {shm : Shm} {q : QueueId}
  {pool : QueueId → List Message} {ledger : Ledger}

/-- The constructor's loop links the allocated headers in front of a list, last to
first, and leaves lists of other headers alone. -/
theorem linkMessages_linked (allocated : List Message) (linked : Linked (nextOf shm) previous cells)
    (nodup : (allocated.reverse ++ cells).Nodup) :
    Linked (nextOf (linkMessages shm previous allocated).1)
      (linkMessages shm previous allocated).2 (allocated.reverse ++ cells) := by
  induction allocated generalizing shm previous cells with
  | nil => exact linked
  | cons message rest ih =>
    rw [reverse_cons, append_assoc] at nodup ⊢
    refine ih ?_ nodup
    have absent : message ∉ cells := by
      have tail := (nodup_append.mp nodup).2.1
      simpa using (nodup_cons.mp tail).1
    have next : nextOf (shm.updateHeader message fun header => { header with next := previous }) =
        update (nextOf shm) message previous := by
      funext other
      simp only [nextOf, Shm.updateHeader, update_apply]
      split <;> rfl
    rw [next]
    exact linked.push absent

theorem linkMessages_other {head : Option Message} (allocated : List Message)
    (linked : Linked (nextOf shm) head cells) (apart : ∀ msg ∈ cells, msg ∉ allocated) :
    Linked (nextOf (linkMessages shm previous allocated).1) head cells := by
  induction allocated generalizing shm previous with
  | nil => exact linked
  | cons message rest ih =>
    refine ih (linked.congr ?_) ?_
    · intro msg member
      have different : msg ≠ message := fun same => apart msg member (by simp [same])
      simp [nextOf, Shm.updateHeader, different]
    · intro msg member inside
      exact apart msg member (mem_cons_of_mem message inside)

theorem Stocked.conserved (stocked : Stocked shm pool) (fresh : Fresh shm) :
    Conserved (fun q => (pool q).toFinset) ⟨shm, fun _ => 0, fun _ => 0⟩ := by
  have noRefs : ∀ q, Ledger.refs ⟨shm, fun _ => 0, fun _ => 0⟩ q = 0 := by
    intro q
    simp [Ledger.refs, Ledger.held, (fresh.queues q).pending]
  refine ⟨fresh.wellFormed, ⟨_, pool, .refl _, stocked.linked, stocked.nodup, ?_, ?_, ?_, ?_, ?_⟩,
    ?_, ?_⟩
  · intro p q msg here there
    exact stocked.apart p q msg (List.mem_toFinset.mp here) (List.mem_toFinset.mp there)
  · intro q msg _
    simp [noRefs]
  · intro q msg referenced
    simp [noRefs] at referenced
  · intro q msg
    simp [noRefs]
  · intro q msg
    simp [noRefs]
  · intro q
    simp [(fresh.queues q).pending]
  · intro q msg member
    simp at member

/-- Distinct messages of a queue that clients hold and its ring does not. -/
def Ledger.heldOnly (ledger : Ledger) (q : QueueId) : Finset Message :=
  (ledger.held q).toFinset \ (ledger.shm.queues q).pending.toFinset

/-- The referenced messages are those in the ring and those held only. -/
theorem Conserved.card_refs {pools : QueueId → Finset Message} (conserved : Conserved pools ledger)
    (q : QueueId) :
    (ledger.refs q).toFinset.card =
      (ledger.shm.queues q).pending.length + (ledger.heldOnly q).card := by
  have parts : (ledger.refs q).toFinset =
      (ledger.shm.queues q).pending.toFinset ∪ ledger.heldOnly q := by
    ext msg
    simp only [Ledger.refs, Ledger.heldOnly, Multiset.mem_toFinset, mem_add,
      mem_coe, Finset.mem_union, List.mem_toFinset, Finset.mem_sdiff]
    tauto
  have apart : Disjoint _ (ledger.heldOnly q) :=
    Finset.disjoint_sdiff
  rw [parts, Finset.card_union_of_disjoint apart, toFinset_card_of_nodup (conserved.nodup q)]

theorem run_conserved {initial : Shm} {final : Ledger} {events : List Event} (fresh : Fresh initial)
    (stocked : Stocked initial pool)
    (run : Run CountedStep ⟨initial, fun _ => 0, fun _ => 0⟩ events final) :
    Conserved (fun q => (pool q).toFinset) final ∧
      ∀ q, (final.shm.queues q).queueLength = (initial.queues q).queueLength := by
  induction run with
  | nil => exact ⟨stocked.conserved fresh, fun _ => rfl⟩
  | snoc before step ih =>
    obtain ⟨conserved, queueLength⟩ := ih
    refine ⟨countedStep_conserved conserved step, ?_⟩
    intro q
    rw [(step_spec conserved.wellFormed step.1.1).queueLength q, queueLength q]

/-- A message is on one free list, once, and nobody references it; or it is on none
and its count is the number of ring slots and held references of one queue. -/
inductive Accounted (ledger : Ledger) (free : QueueId → List Message) (msg : Message) : Prop where
  | isFree (q : QueueId) (once : (free q).count msg = 1) (elsewhere : ∀ p, p ≠ q → msg ∉ free p)
      (notPending : ∀ p, msg ∉ (ledger.shm.queues p).pending)
      (notHeld : ∀ p, msg ∉ ledger.held p)
  | inUse (q : QueueId) (positive : 1 ≤ (ledger.shm.header msg).refCount)
      (counted : (ledger.shm.header msg).refCount =
        (ledger.shm.queues q).pending.count msg + (ledger.held q).count msg)
      (elsewhere : ∀ p, p ≠ q → msg ∉ (ledger.shm.queues p).pending ∧ msg ∉ ledger.held p)
      (notFree : ∀ p, msg ∉ free p)

theorem Balanced.accounted {assigned : QueueId → Finset Message} {free : QueueId → List Message}
    {msg : Message} (balanced : Balanced assigned ledger.shm free ledger.refs)
    (inside : msg ∈ assigned q) :
    Accounted ledger free msg := by
  have split : ∀ p, msg ∉ ledger.refs p →
      msg ∉ (ledger.shm.queues p).pending ∧ msg ∉ ledger.held p := by
    intro p unreferenced
    simpa [Ledger.refs] using unreferenced
  have notFree : ∀ p, p ≠ q → msg ∉ free p := fun p different isFree =>
    different (balanced.disjoint p q msg (balanced.free_assigned isFree) inside)
  rcases (balanced.covered q msg).mp inside with isFree | referenced
  · have unreferenced : ∀ p, msg ∉ ledger.refs p := by
      intro p
      by_cases same : p = q
      · rw [same]
        exact balanced.idle q msg isFree
      · exact balanced.not_referenced same inside
    exact .isFree q (count_eq_one_of_mem (balanced.nodup q) isFree) notFree
      (fun p => (split p (unreferenced p)).1) (fun p => (split p (unreferenced p)).2)
  · have counted := balanced.counted q msg referenced
    have positive := count_pos.mpr referenced
    refine .inUse q (by omega) ?_ ?_ ?_
    · rw [counted, Ledger.refs, count_add, coe_count]
      rfl
    · intro p different
      exact split p (balanced.not_referenced different inside)
    · intro p isFree
      by_cases same : p = q
      · subst same
        exact balanced.idle p msg isFree referenced
      · exact notFree p same isFree

/-- As long as no message has 2³¹ references, in every reachable state every message of
every pool is accounted for, each queue's free, pending and otherwise held messages
add up to the size of its pool, and an empty free list means that clients hold the
extra messages.

Proof: every call keeps the accounts (`countedStep_conserved`); the assigned messages
of a queue are its free and its referenced ones, and trading exchanges one for one. -/
theorem messages_conserved {initial : Shm} {pool : QueueId → List Message} {final : Ledger}
    {events : List Event} (fresh : Fresh initial) (stocked : Stocked initial pool)
    (run : Run CountedStep ⟨initial, fun _ => 0, fun _ => 0⟩ events final) :
    ∃ free : QueueId → List Message,
      (∀ q, Linked (nextOf final.shm) (final.shm.queues q).freeMessages (free q)) ∧
      (∀ q, ∀ msg ∈ pool q, Accounted final free msg) ∧
      (∀ q, ((free q).length + (final.shm.queues q).pending.length +
        (final.heldOnly q).card : Int) = (initial.queues q).queueLength + kExtraMessages) ∧
      (∀ q, (final.shm.queues q).pending.Nodup) ∧
      ∀ q, (final.shm.queues q).freeMessages = none → kExtraMessages ≤ (final.heldOnly q).card := by
  obtain ⟨conserved, queueLength⟩ := run_conserved fresh stocked run
  obtain ⟨assigned, free, reassigned, balanced⟩ := conserved.accounts
  have sums : ∀ q, ((free q).length + (final.shm.queues q).pending.length +
      (final.heldOnly q).card : Int) = (initial.queues q).queueLength + kExtraMessages := by
    intro q
    have total := balanced.card_assigned q
    rw [reassigned.card q, toFinset_card_of_nodup (stocked.nodup q),
      conserved.card_refs q] at total
    have size := stocked.size q
    omega
  refine ⟨free, balanced.linked, ?_, sums, conserved.nodup, ?_⟩
  · intro q msg member
    obtain ⟨p, inside⟩ := (reassigned.everywhere msg).mpr ⟨q, List.mem_toFinset.mpr member⟩
    exact balanced.accounted inside
  · intro q exhausted
    have linked := balanced.linked q
    rw [exhausted] at linked
    have sum := sums q
    have bound := pending_length_le (conserved.wellFormed.rings q)
    rw [linked.eq_nil, length_nil, ← queueLength q] at sum
    omega

/-- The pools of the sample, in the order of the free lists. -/
def samplePool (q : QueueId) : List Message :=
  (List.range 21).reverse.map fun offset : Nat => (21 * q + offset : Nat)

/-- Following the free list from the header at any offset meets all smaller offsets. -/
theorem sampleShm_linked (q : Nat) (offset : Nat) (inside : offset ≤ 20) :
    Linked (nextOf sampleShm) (some (21 * q + offset : Nat))
      ((List.range (offset + 1)).reverse.map fun offset : Nat => (21 * q + offset : Nat)) := by
  induction offset with
  | zero => exact ⟨rfl, by simp [nextOf, sampleShm, Linked]⟩
  | succ offset ih =>
    rw [List.range_succ, reverse_append]
    refine ⟨rfl, ?_⟩
    have notFirst : (21 * q + (offset + 1)) % 21 ≠ 0 := by omega
    have next : nextOf sampleShm (21 * q + (offset + 1) : Nat) = some (21 * q + offset : Nat) := by
      have previous : 21 * q + (offset + 1) - 1 = 21 * q + offset := by omega
      simp only [nextOf, sampleShm, if_neg notFirst, previous]
    rw [next]
    exact ih (by omega)

theorem sampleShm_stocked : Stocked sampleShm samplePool := by
  have bounds : ∀ q msg : Nat, msg ∈ samplePool q → 21 * q ≤ msg ∧ msg < 21 * q + 21 := by
    intro q msg member
    obtain ⟨offset, inside, rfl⟩ := mem_map.mp member
    have small := List.mem_range.mp (mem_reverse.mp inside)
    omega
  refine ⟨fun q => sampleShm_linked q 20 (Nat.le_refl 20), ?_, ?_, ?_⟩
  · intro q
    refine .map ?_ (by decide)
    intro first second same
    exact Nat.add_left_cancel same
  · intro (p : Nat) (q : Nat) (msg : Nat) here there
    have low := bounds p msg here
    have high := bounds q msg there
    change p = q
    omega
  · intro q
    simp [samplePool, sampleShm, sampleQueue, kExtraMessages]

/-- Allocate, write and read back one message, free it through the recycle queue. -/
def sampleCalls : List Event :=
  [⟨0, 0, .getMessage, .got 20⟩, ⟨0, 0, .writeMessage 20 kBlock, .written true⟩,
    ⟨1, 0, .readMessage kNonBlock, .read (some 20)⟩, ⟨1, 0, .freeMessage (some 20), .freed⟩]

theorem sampleCalls_run : ∃ final,
    Run CountedStep ⟨sampleShm, fun _ => 0, fun _ => 0⟩ sampleCalls final ∧
      (final.shm.queues 1).pending = [20] ∧ (final.shm.queues 0).freeMessages = some 41 := by
  refine ⟨_, .snoc (.snoc (.snoc (.snoc (.nil _)
    ⟨.ofStep ⟨trivial, rfl⟩ ⟨rfl, rfl⟩, ?_⟩) ⟨.ofStep ⟨by decide, rfl⟩ ⟨by decide, rfl, rfl⟩, ?_⟩)
    ⟨.ofStep ⟨by decide, rfl⟩ ⟨rfl, rfl⟩, ?_⟩)
    ⟨.returns ⟨trivial, rfl⟩ (by decide), ?_⟩, rfl, rfl⟩
  all_goals
    intro q msg
    refine Nat.lt_of_le_of_lt (count_le_card _ _) ?_
    match q with
    | 0 => decide
    | 1 => decide
    | q + 2 => exact (by decide : 0 < 2 ^ 31)

theorem messages_conserved_sample : ∃ final,
    Run CountedStep ⟨sampleShm, fun _ => 0, fun _ => 0⟩ sampleCalls final ∧
      ∃ free : QueueId → List Message, Accounted final free 20 ∧
        (free 0).length + (final.shm.queues 0).pending.length + (final.heldOnly 0).card = 21 := by
  obtain ⟨final, run, _, _⟩ := sampleCalls_run
  obtain ⟨free, _, accounted, sums, _⟩ := messages_conserved sampleShm_fresh sampleShm_stocked run
  refine ⟨final, run, free, accounted 0 20 (by decide), ?_⟩
  have sum : ((free 0).length + (final.shm.queues 0).pending.length +
      (final.heldOnly 0).card : Int) = 1 + 20 := sums 0
  omega

/-- The memory with message 20 written to the first queue. -/
def writtenShm : Shm := storeAtEnd 0 20 (takeFree 0 20 sampleShm)

/-- Reading the message without removing it. -/
def peek : Event := ⟨1, 0, .readMessage (kPeek.union kNonBlock), .read (some 20)⟩

/-- Each such read adds a reference. -/
theorem peeks_run (reads : Nat) : ∃ final, Run LedgerStep ⟨sampleShm, fun _ => 0, fun _ => 0⟩
    (sampleCalls.take 2 ++ List.replicate reads peek) final ∧
      final.shm.queues = writtenShm.queues ∧
      (final.shm.header 20).refCount = int32 (1 + reads) := by
  induction reads with
  | zero =>
    exact ⟨_, .snoc (.snoc (.nil _) (.ofStep ⟨trivial, rfl⟩ ⟨rfl, rfl⟩))
      (.ofStep ⟨by decide, rfl⟩ ⟨by decide, rfl, rfl⟩), rfl, rfl⟩
  | succ reads ih =>
    obtain ⟨⟨⟨header, queues⟩, allocated, borrowed⟩, run, rfl, count⟩ := ih
    set before : Shm := ⟨header, writtenShm.queues⟩
    have marked : (before.updateQueue 0 fun queue =>
        { queue with writableStart := queue.isWritable }).queues = writtenShm.queues := by
      funext other
      by_cases first : other = 0
      · subst first
        rfl
      · exact if_neg first
    have returned : perform 1 0 peek.call before = .returned peek.reply
        ⟨(before.refCountAdd 20).header, _⟩ := rfl
    have read : Step before peek ⟨(before.refCountAdd 20).header, writtenShm.queues⟩ :=
      ⟨by decide, returned.trans (by rw [← marked])⟩
    rw [List.replicate_succ', ← append_assoc]
    refine ⟨_, run.snoc (.ofStep read ⟨rfl, rfl⟩), rfl, ?_⟩
    rw [refCount_refCountAdd_same, count, int32, int32, Int.bmod_add_bmod, int32, Int.add_assoc]
    rfl

/-- After 2³¹ - 1 reads the message has 2³¹ references and its count is negative. -/
theorem references_wrap : ∃ final, Run LedgerStep ⟨sampleShm, fun _ => 0, fun _ => 0⟩
    (sampleCalls.take 2 ++ List.replicate (2 ^ 31 - 1) peek) final ∧
      (final.shm.header 20).refCount = -2 ^ 31 ∧ ∀ free, ¬ Accounted final free 20 := by
  obtain ⟨final, run, queues, count⟩ := peeks_run (2 ^ 31 - 1)
  have wrapped : (final.shm.header 20).refCount = -2 ^ 31 := count.trans (by decide)
  have pending : 20 ∈ (final.shm.queues 0).pending := by
    rw [queues]
    decide
  refine ⟨final, run, wrapped, ?_⟩
  rintro free (⟨_, _, _, notPending, _⟩ | ⟨_, positive, _, _, _⟩)
  · exact notPending 0 pending
  · rw [wrapped] at positive
    exact absurd positive (by decide)

end Miranda.RawQueue
