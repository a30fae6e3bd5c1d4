import Miranda.RawQueue.Clients
import Miranda.RawQueue.Trading

/-!
# The references clients hold

Clients hold references: one for each message they allocated and have not written
or freed, and one for each message they read and have not freed. Held references
are kept here beside the memory, split by how they were obtained, because only an
allocated message may be written. Every whole call keeps the accounts of `Balanced`
with the rings and the clients as the only holders.
-/

namespace Miranda.RawQueue

open Function Multiset

/-- Memory and the references the clients hold, by queue and by origin. -/
structure Ledger where
  shm : Shm
  allocated : QueueId → Multiset Message
  borrowed : QueueId → Multiset Message

/-- All references of one queue that clients hold. -/
def Ledger.held (ledger : Ledger) (q : QueueId) : Multiset Message :=
  ledger.allocated q + ledger.borrowed q

/-- All references of one queue. -/
def Ledger.refs (ledger : Ledger) (q : QueueId) : Multiset Message :=
  ((ledger.shm.queues q).pending : Multiset Message) + ledger.held q

/-- How the held references change with a returning call. A message is written only
by a client that allocated it, and freed to the queue it came from by a client that
holds it; either way the reference is gone. -/
def Settles (event : Event) (before after : Ledger) : Prop :=
  match event.call, event.reply with
  | .getMessage, .got msg =>
      after.allocated = update before.allocated event.queue (msg ::ₘ before.allocated event.queue) ∧
        after.borrowed = before.borrowed
  | .writeMessage msg _, _ =>
      msg ∈ before.allocated event.queue ∧
        after.allocated =
          update before.allocated event.queue ((before.allocated event.queue).erase msg) ∧
        after.borrowed = before.borrowed
  | .readMessage _, .read reply =>
      after.allocated = before.allocated ∧ after.borrowed =
        update before.borrowed event.queue (before.borrowed event.queue + reply.toList)
  | .readMessageIndex _ _, .readIndex reply _ =>
      after.allocated = before.allocated ∧ after.borrowed =
        update before.borrowed event.queue (before.borrowed event.queue + reply.toList)
  | .freeMessage none, _ =>
      after.allocated = before.allocated ∧ after.borrowed = before.borrowed
  | .freeMessage (some msg), _ =>
      (msg ∈ before.allocated event.queue ∧
        after.allocated =
          update before.allocated event.queue ((before.allocated event.queue).erase msg) ∧
        after.borrowed = before.borrowed) ∨
      (msg ∈ before.borrowed event.queue ∧ after.allocated = before.allocated ∧
        after.borrowed =
          update before.borrowed event.queue ((before.borrowed event.queue).erase msg))
  | _, _ => False

/-- A client makes a call and the ledger is settled. -/
def LedgerStep (before : Ledger) (event : Event) (after : Ledger) : Prop :=
  Step before.shm event after.shm ∧ Settles event before after

/-- No message has more references than its count can hold. -/
def Ledger.Few (ledger : Ledger) : Prop := ∀ q msg, (ledger.refs q).count msg < 2 ^ 31

/-- A call after which this is so. -/
def CountedStep (before : Ledger) (event : Event) (after : Ledger) : Prop :=
  LedgerStep before event after ∧ after.Few

variable {event : Event} {allocated borrowed : QueueId → Multiset Message} {memory shm : Shm}
  {msg : Message} {q : QueueId} {thread : ThreadId} {ledger : Ledger}
  {pools : QueueId → Finset Message} {after : Ledger} {assigned : QueueId → Finset Message}
  {free : QueueId → List Message} {refs : QueueId → Multiset Message} {added : Multiset Message}

theorem LedgerStep.ofStep {newAllocated newBorrowed : QueueId → Multiset Message}
    (taken : Step shm event memory)
    (settles : Settles event ⟨shm, allocated, borrowed⟩ ⟨memory, newAllocated, newBorrowed⟩) :
    LedgerStep ⟨shm, allocated, borrowed⟩ event ⟨memory, newAllocated, newBorrowed⟩ :=
  ⟨taken, settles⟩

/-- A reader gives back a message. -/
theorem LedgerStep.returns (taken : Step shm ⟨thread, q, .freeMessage (some msg), .freed⟩ memory)
    (member : msg ∈ borrowed q) :
    LedgerStep ⟨shm, allocated, borrowed⟩ ⟨thread, q, .freeMessage (some msg), .freed⟩
      ⟨memory, allocated, update borrowed q ((borrowed q).erase msg)⟩ :=
  ⟨taken, .inr ⟨member, rfl, rfl⟩⟩

/-- The invariant: the accounts balance with rings and clients as the holders, no
message is twice in a ring, and an allocated message has no other reference. -/
structure Conserved (pools : QueueId → Finset Message) (ledger : Ledger) : Prop where
  wellFormed : WellFormed ledger.shm
  accounts : ∃ assigned free, Reassigned pools assigned ∧
    Balanced assigned ledger.shm free ledger.refs
  nodup : ∀ q, (ledger.shm.queues q).pending.Nodup
  sole : ∀ q, ∀ msg ∈ ledger.allocated q, (ledger.refs q).count msg = 1

section

variable (conserved : Conserved pools ledger)
include conserved

/-- An allocated message is not in the ring. -/
theorem Conserved.not_pending (allocated : msg ∈ ledger.allocated q) :
    msg ∉ (ledger.shm.queues q).pending := by
  have sole := conserved.sole q msg allocated
  have positive := count_pos.mpr allocated
  unfold Ledger.refs Ledger.held at sole
  rw [count_add, count_add] at sole
  rw [← mem_coe, ← count_eq_zero]
  omega

/-- Assemble the invariant after a call on one queue from what the call did there
and the little it can have done elsewhere. -/
theorem Conserved.next (well : WellFormed after.shm)
    (reassigned : Reassigned pools assigned) (balanced : Balanced assigned after.shm free refs)
    (here : refs q = after.refs q) (elsewhere : Elsewhere q ledger.held ledger.shm after.shm refs)
    (allocated : ∀ p, p ≠ q → after.allocated p = ledger.allocated p)
    (borrowed : ∀ p, p ≠ q → after.borrowed p = ledger.borrowed p)
    (nodup : (after.shm.queues q).pending.Nodup)
    (sole : ∀ msg ∈ after.allocated q, (after.refs q).count msg = 1) : Conserved pools after := by
  have held : ∀ p, p ≠ q → after.held p = ledger.held p := by
    intro p different
    unfold Ledger.held
    rw [allocated p different, borrowed p different]
  have same : refs = after.refs := by
    funext p
    by_cases isQ : p = q
    · rw [isQ, here]
    · rw [elsewhere.refs p isQ, Ledger.refs, held p isQ]
  refine ⟨well, ⟨assigned, free, reassigned, same ▸ balanced⟩, ?_, ?_⟩
  · intro p
    by_cases isQ : p = q
    · rw [isQ]
      exact nodup
    · exact elsewhere.nodup p isQ (conserved.nodup p)
  · intro p msg member
    by_cases isQ : p = q
    · subst isQ
      exact sole msg member
    · rw [allocated p isQ] at member
      have inHeld : msg ∈ ledger.held p := mem_add.mpr (.inl member)
      have notBefore := conserved.not_pending member
      have notAfter : msg ∉ (after.shm.queues p).pending := by
        intro inside
        rcases elsewhere.fresh p isQ msg inside with before | outside
        · exact notBefore before
        · exact outside inHeld
      have before := conserved.sole p msg member
      unfold Ledger.refs at before ⊢
      rw [count_add, count_eq_zero.mpr (by simpa using notBefore)] at before
      rw [held p isQ, count_add, count_eq_zero.mpr (by simpa using notAfter)]
      exact before

/-- References may go, and others may come, without an allocated message getting a
second one. -/
theorem Conserved.sole_of_le (fewer : after.refs q ≤ ledger.refs q + added)
    (kept : after.allocated q ≤ ledger.allocated q)
    (apart : ∀ msg ∈ ledger.allocated q, msg ∉ added) :
    ∀ msg ∈ after.allocated q, (after.refs q).count msg = 1 := by
  intro msg member
  have before := mem_of_le kept member
  have sole := conserved.sole q msg before
  have most := count_le_of_le msg fewer
  rw [count_add, count_eq_zero.mpr (apart msg before)] at most
  have inRefs : msg ∈ after.refs q := by
    simp [Ledger.refs, Ledger.held, member]
  have positive := count_pos.mpr inRefs
  omega

/-- A call that adds references, drops some messages and returns. -/
theorem Conserved.finished {base : Shm} {messages : List Message}
    (sameQueues : base.queues = ledger.shm.queues)
    (reassigned : Reassigned pools assigned) (balanced : Balanced assigned base free refs)
    (others : ∀ p, p ≠ q → refs p = ledger.refs p) (grown : refs q = ledger.refs q + added)
    (apart : ∀ msg ∈ ledger.allocated q, msg ∉ added)
    (spec : CallSpec thread q messages base after.shm)
    (kept : after.refs q + messages = ledger.refs q + added)
    (fewer : after.allocated q ≤ ledger.allocated q)
    (allocated : ∀ p, p ≠ q → after.allocated p = ledger.allocated p)
    (borrowed : ∀ p, p ≠ q → after.borrowed p = ledger.borrowed p)
    (nodup : (after.shm.queues q).pending.Nodup) : Conserved pools after := by
  have othersBase : ∀ p, p ≠ q →
      refs p = ((base.queues p).pending : Multiset Message) + ledger.held p := by
    intro p different
    rw [sameQueues]
    exact others p different
  obtain ⟨newAssigned, newFree, newRefs, moved, balancedAfter, here, elsewhere⟩ :=
    balanced.dropped spec.drops (grown.trans kept.symm) othersBase
  have elsewhereLedger : Elsewhere q ledger.held ledger.shm after.shm newRefs := by
    obtain ⟨sums, distinct, fresh⟩ := elsewhere
    rw [sameQueues] at distinct fresh
    exact ⟨sums, distinct, fresh⟩
  refine conserved.next spec.wellFormed (reassigned.trans moved) balancedAfter here
    elsewhereLedger allocated borrowed nodup (conserved.sole_of_le ?_ fewer apart)
  rw [← kept]
  exact le_add_right _ _

end

/-- A read that leaves its message in the ring adds a reference to it. -/
theorem Balanced.addReference (balanced : Balanced assigned shm free refs) (peek : Bool)
    {reply : Option Message} (referenced : ∀ msg ∈ reply, msg ∈ refs q)
    (room : peek = true → ∀ msg ∈ reply, (refs q).count msg + 1 < 2 ^ 31) :
    ∃ newRefs, Balanced assigned (RawQueue.addReference peek reply shm) free newRefs ∧
      newRefs q = refs q + ((if peek then reply.toList else [] : List Message) : Multiset Message) ∧
      ∀ p, p ≠ q → newRefs p = refs p := by
  cases peek with
  | false =>
    exact ⟨refs, balanced, by simp, fun _ _ => rfl⟩
  | true =>
    cases reply with
    | none => exact ⟨refs, balanced, by simp, fun _ _ => rfl⟩
    | some msg =>
      refine ⟨_, balanced.countUp (referenced msg rfl) (room rfl msg rfl), ?_,
        fun p different => update_of_ne different _ _⟩
      rw [update_self, add_comm]
      rfl

section Calls

variable {pools : QueueId → Finset Message} {ledger after : Ledger} {q : QueueId}
  {thread : ThreadId} {msg : Message} (conserved : Conserved pools ledger)
include conserved

theorem Conserved.got (returned : getMessage q ledger.shm = .returned msg after.shm)
    (allocated : after.allocated = update ledger.allocated q (msg ::ₘ ledger.allocated q))
    (borrowed : after.borrowed = ledger.borrowed) : Conserved pools after := by
  obtain ⟨assigned, free, reassigned, balanced⟩ := conserved.accounts
  obtain ⟨available, memory⟩ := getMessage_returned returned
  obtain ⟨unreferenced, newFree, taken⟩ := balanced.taken available
  rw [← memory] at taken
  have spec := getMessage_spec conserved.wellFormed returned
  have pending := spec.same.pending
  have refsHere : after.refs q = msg ::ₘ ledger.refs q := by
    simp only [Ledger.refs, Ledger.held, pending, allocated, borrowed, update_self]
    rw [cons_add, add_cons]
  refine conserved.next (q := q) spec.wellFormed reassigned taken ?_ ?_ ?_ ?_ ?_ ?_
  · rw [update_self, refsHere]
  · refine .unchanged ?_ ?_
    · intro p different
      rw [memory, takeFree_other msg _ different]
    · intro p different
      rw [update_of_ne different]
      rfl
  · intro p different
    rw [allocated, update_of_ne different]
  · intro p _
    rw [borrowed]
  · rw [pending]
    exact conserved.nodup q
  · intro other member
    rw [allocated, update_self] at member
    rw [refsHere]
    by_cases same : other = msg
    · subst same
      rw [count_cons_self, count_eq_zero.mpr unreferenced]
    · rw [count_cons_of_ne same]
      exact conserved.sole q other ((mem_cons.mp member).resolve_left same)

variable {options : Options} {reply : Option Message}

theorem Conserved.wrote {accepted : Bool} (legal : WriteLegal options)
    (returned : writeMessage thread q msg options ledger.shm = .returned accepted after.shm)
    (member : msg ∈ ledger.allocated q)
    (allocated : after.allocated = update ledger.allocated q ((ledger.allocated q).erase msg))
    (borrowed : after.borrowed = ledger.borrowed) : Conserved pools after := by
  obtain ⟨assigned, free, reassigned, balanced⟩ := conserved.accounts
  obtain ⟨effect, put, _, spec, pending, _⟩ :=
    writeMessage_returned conserved.wellFormed legal returned
  have conserves := BoundedFifo.put_conserves put
  have owned := cons_erase member
  have nothingAdded : ledger.refs q = ledger.refs q + 0 := (add_zero _).symm
  refine conserved.finished rfl reassigned balanced (fun _ _ => rfl) nothingAdded
    (fun _ _ => notMem_zero _) spec ?_ ?_ ?_ ?_ ?_
  · simp only [Ledger.refs, Ledger.held, pending, allocated, borrowed, update_self]
    calc (effect.contents : Multiset Message) +
          ((ledger.allocated q).erase msg + ledger.borrowed q) + effect.dropped
        = ((effect.contents : Multiset Message) + effect.dropped) +
          ((ledger.allocated q).erase msg + ledger.borrowed q) := by abel
      _ = ((ledger.shm.queues q).pending : Multiset Message) +
          ((msg ::ₘ (ledger.allocated q).erase msg) + ledger.borrowed q) + 0 := by
        rw [conserves, ← singleton_add]
        abel
      _ = _ := by rw [owned]
  · rw [allocated, update_self]
    exact erase_le msg _
  · intro p different
    rw [allocated, update_of_ne different]
  · intro p _
    rw [borrowed]
  · rw [pending]
    have bound : (effect.contents : Multiset Message) ≤
        ((ledger.shm.queues q).pending : Multiset Message) + {msg} := by
      rw [← conserves]
      exact le_add_right _ _
    refine nodup_of_le bound ?_
    rw [add_comm, singleton_add, nodup_cons]
    exact ⟨by simpa using conserved.not_pending member, coe_nodup.mpr (conserved.nodup q)⟩

section Reads

variable (few : after.Few) (owned : after.allocated = ledger.allocated)
  (lent : after.borrowed = update ledger.borrowed q (ledger.borrowed q + reply.toList))
include few owned lent

/-- The common part of the two kinds of reads. -/
theorem Conserved.readReturned {peek : Bool} {messages : List Message}
    (spec : CallSpec thread q messages (addReference peek reply ledger.shm) after.shm)
    (conserves : ((after.shm.queues q).pending : Multiset Message) + messages + reply.toList =
      ((ledger.shm.queues q).pending : Multiset Message) +
        ((if peek then reply.toList else [] : List Message) : Multiset Message))
    (drops : peek = true → messages = [])
    (inside : ∀ msg ∈ reply, msg ∈ (ledger.shm.queues q).pending)
    (nodup : (after.shm.queues q).pending.Nodup) : Conserved pools after := by
  obtain ⟨assigned, free, reassigned, balanced⟩ := conserved.accounts
  have referenced : ∀ msg ∈ reply, msg ∈ ledger.refs q := by
    intro msg replied
    simp [Ledger.refs, inside msg replied]
  have kept : after.refs q + messages = ledger.refs q +
      ((if peek then reply.toList else [] : List Message) : Multiset Message) := by
    simp only [Ledger.refs, Ledger.held, owned, lent, update_self]
    calc ((after.shm.queues q).pending : Multiset Message) +
          (ledger.allocated q + (ledger.borrowed q + reply.toList)) + messages
        = (((after.shm.queues q).pending : Multiset Message) + messages + reply.toList) +
          (ledger.allocated q + ledger.borrowed q) := by abel
      _ = _ := by
        rw [conserves]
        abel
  have room : peek = true → ∀ msg ∈ reply, (ledger.refs q).count msg + 1 < 2 ^ 31 := by
    rintro rfl msg replied
    cases replied
    have counts := congrArg (Multiset.count msg) kept
    rw [drops rfl, coe_nil, add_zero, count_add] at counts
    have bound := few q msg
    simpa [counts] using bound
  obtain ⟨refs, balancedBase, grown, others⟩ := balanced.addReference peek referenced room
  refine conserved.finished (addReference_queues peek reply _) reassigned balancedBase
    others grown ?_ spec kept ?_ ?_ ?_ nodup
  · intro msg member added
    have replied : msg ∈ reply := by
      cases peek with
      | false => simp at added
      | true => simpa using added
    exact conserved.not_pending member (inside msg replied)
  · rw [owned]
  · intro p _
    rw [owned]
  · intro p different
    rw [lent, update_of_ne different]

theorem Conserved.read (legal : ReadLegal options)
    (returned : readMessage thread q options ledger.shm = .returned reply after.shm) :
    Conserved pools after := by
  obtain ⟨effect, take, replied, spec, pending, _⟩ :=
    readMessage_returned conserved.wellFormed legal returned
  subst replied
  obtain ⟨conserves, inside⟩ := BoundedFifo.take_conserves take
  rw [← pending] at conserves
  refine conserved.readReturned few owned lent spec conserves ?_ inside ?_
  · intro peeks
    rw [peeks] at take
    exact BoundedFifo.take_dropped take
  rw [pending]
  exact (BoundedFifo.take_sublist take).nodup (conserved.nodup q)

theorem Conserved.readIndexed {index newIndex : Int} (legal : ReadIndexLegal options)
    (start : 0 ≤ index)
    (returned : readMessageIndex thread q options index ledger.shm =
      .returned (reply, newIndex) after.shm) : Conserved pools after := by
  obtain ⟨spec, pending, _, replied⟩ := reader_call conserved.wellFormed legal start returned
  refine conserved.readReturned few owned lent spec ?_ (fun _ => rfl) ?_ ?_
  · simp [pending]
  · rintro _ ⟨⟩
    obtain ⟨_, _, indexed⟩ := replied
    exact List.mem_of_getElem? indexed.found
  · rw [pending]
    exact conserved.nodup q

end Reads

theorem Conserved.freed (returned : release thread q msg ledger.shm = .returned () after.shm)
    (held : ledger.held q = msg ::ₘ after.held q)
    (fewer : after.allocated q ≤ ledger.allocated q)
    (allocated : ∀ p, p ≠ q → after.allocated p = ledger.allocated p)
    (borrowed : ∀ p, p ≠ q → after.borrowed p = ledger.borrowed p) : Conserved pools after := by
  obtain ⟨assigned, free, reassigned, balanced⟩ := conserved.accounts
  have pending := (release_spec conserved.wellFormed returned).same.pending
  have nothingAdded : ledger.refs q = ledger.refs q + 0 := (add_zero _).symm
  refine conserved.finished rfl reassigned balanced (fun _ _ => rfl) nothingAdded
    (fun _ _ => notMem_zero _) (.ofRelease conserved.wellFormed returned) ?_ fewer
    allocated borrowed ?_
  · unfold Ledger.refs
    rw [pending, held, ← singleton_add]
    abel
  · rw [pending]
    exact conserved.nodup q

end Calls

/-- Every settled call keeps the accounts, as long as the counts do not wrap. -/
theorem countedStep_conserved (conserved : Conserved pools ledger)
    (step : CountedStep ledger event after) :
    Conserved pools after := by
  obtain ⟨⟨⟨legal, performed⟩, settles⟩, few⟩ := step
  obtain ⟨thread, q, call, reply⟩ := event
  cases call with
  | getMessage =>
    obtain ⟨msg, returned, rfl⟩ := Outcome.map_eq_returned performed
    exact conserved.got returned settles.1 settles.2
  | writeMessage msg options =>
    obtain ⟨accepted, returned, rfl⟩ := Outcome.map_eq_returned performed
    obtain ⟨member, allocated, borrowed⟩ := settles
    exact conserved.wrote legal returned member allocated borrowed
  | readMessage options =>
    obtain ⟨msg, returned, rfl⟩ := Outcome.map_eq_returned performed
    exact conserved.read few settles.1 settles.2 legal returned
  | readMessageIndex options index =>
    obtain ⟨⟨msg, newIndex⟩, returned, rfl⟩ := Outcome.map_eq_returned performed
    exact conserved.readIndexed few settles.1 settles.2 legal.1 legal.2 returned
  | freeMessage msg =>
    obtain ⟨_, returned, rfl⟩ := Outcome.map_eq_returned performed
    cases msg with
    | none =>
      injection returned with _ memory
      obtain ⟨allocated, borrowed⟩ := settles
      have same : after = ledger := by
        cases after
        cases ledger
        simp_all
      exact same ▸ conserved
    | some msg =>
      rcases settles with ⟨member, allocated, borrowed⟩ | ⟨member, allocated, borrowed⟩
      · refine conserved.freed returned ?_ ?_ ?_ ?_
        · simp only [Ledger.held, allocated, borrowed, update_self]
          rw [← cons_add, cons_erase member]
        · rw [allocated, update_self]
          exact erase_le msg _
        · intro p different
          rw [allocated, update_of_ne different]
        · intro p _
          rw [borrowed]
      · refine conserved.freed returned ?_ ?_ ?_ ?_
        · simp only [Ledger.held, allocated, borrowed, update_self]
          rw [← add_cons, cons_erase member]
        · rw [allocated]
        · intro p _
          rw [allocated]
        · intro p different
          rw [borrowed, update_of_ne different]

end Miranda.RawQueue
