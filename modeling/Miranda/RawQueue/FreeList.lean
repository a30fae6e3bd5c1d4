import Miranda.RawQueue.Conservation

/-!
# The lock-free free list

`GetMessage` and the end of `DoFreeMessage` work on the free list without a lock.
Allocation loads `free_messages_`, reads the header's next pointer and exchanges the
head for it; freeing loads the head, stores it in the header's next pointer and
exchanges the head for the header. Each of these accesses is one step here, and the
steps of any number of threads interleave. The exchanges are weak and may fail for no
reason; a failed exchange delivers the current head, and the thread tries again.

The exchange of an allocation only compares heads. If the header was taken and put
back in the meantime, its next pointer may have changed, and the exchange installs the
old one. A list is kept apart from the held messages as long as this does not happen.
-/

namespace Miranda.RawQueue

open LinkedList Function Runs List

/-- Where a thread is in `GetMessage` or in the end of `DoFreeMessage`. -/
inductive Progress where
  | idle
  | loaded (header : Option Message)
  | taking (header : Message) (next : Option Message)
  | freeing (msg : Message) (newNext : Option Message)
  | linking (msg : Message) (newNext : Option Message)

/-- The shared list, and what each thread holds and does. A message that is being
freed is held until it is on the list. -/
structure FreeList where
  freeMessages : Option Message
  next : Message → Option Message
  held : ThreadId → List Message
  progress : ThreadId → Progress

inductive FreeListEvent where
  | getLoad (thread : ThreadId)
  | getNext (thread : ThreadId)
  | getExchange (thread : ThreadId) (succeeds : Bool)
  | freeLoad (thread : ThreadId) (msg : Message)
  | freeStore (thread : ThreadId)
  | freeExchange (thread : ThreadId) (succeeds : Bool)

/-- One access of one thread. A thread that loaded an empty list dies and has no
further steps. -/
def FreeListStep (before : FreeList) (event : FreeListEvent) (after : FreeList) : Prop :=
  match event with
  | .getLoad thread =>
      before.progress thread = .idle ∧
        after = { before with
          progress := update before.progress thread (.loaded before.freeMessages) }
  | .getNext thread =>
      ∃ header, before.progress thread = .loaded (some header) ∧
        after = { before with
          progress := update before.progress thread (.taking header (before.next header)) }
  | .getExchange thread true =>
      ∃ header next, before.progress thread = .taking header next ∧
        before.freeMessages = some header ∧
        after = { before with
          freeMessages := next
          held := update before.held thread (header :: before.held thread)
          progress := update before.progress thread .idle }
  | .getExchange thread false =>
      ∃ header next, before.progress thread = .taking header next ∧
        after = { before with
          progress := update before.progress thread (.loaded before.freeMessages) }
  | .freeLoad thread msg =>
      before.progress thread = .idle ∧ msg ∈ before.held thread ∧
        after = { before with
          progress := update before.progress thread (.freeing msg before.freeMessages) }
  | .freeStore thread =>
      ∃ msg newNext, before.progress thread = .freeing msg newNext ∧
        after = { before with
          next := update before.next msg newNext
          progress := update before.progress thread (.linking msg newNext) }
  | .freeExchange thread true =>
      ∃ msg newNext, before.progress thread = .linking msg newNext ∧
        before.freeMessages = newNext ∧
        after = { before with
          freeMessages := some msg
          held := update before.held thread ((before.held thread).erase msg)
          progress := update before.progress thread .idle }
  | .freeExchange thread false =>
      ∃ msg newNext, before.progress thread = .linking msg newNext ∧
        after = { before with
          progress := update before.progress thread (.freeing msg before.freeMessages) }

/-- The list ends, without repetition, nobody holds a message on it and no message is
held twice. -/
structure Exclusive (state : FreeList) : Prop where
  apart : ∃ cells, Linked state.next state.freeMessages cells ∧ cells.Nodup ∧
    ∀ thread, ∀ msg ∈ state.held thread, msg ∉ cells
  single : ∀ first second msg, msg ∈ state.held first → msg ∈ state.held second → first = second
  nodup : ∀ thread, (state.held thread).Nodup

/-- A successful exchange of an allocation finds the next pointer it has read. -/
def NextUnchanged (before : FreeList) : FreeListEvent → Prop
  | .getExchange thread true =>
      ∀ header next, before.progress thread = .taking header next → before.next header = next
  | _ => True

def GuardedStep (before : FreeList) (event : FreeListEvent) (after : FreeList) : Prop :=
  FreeListStep before event after ∧ NextUnchanged before event

/-- A thread in the middle of freeing holds the message, and once it has stored the
next pointer nobody else changes it. -/
structure Freeing (state : FreeList) (thread : ThreadId) : Prop where
  storing : ∀ msg newNext, state.progress thread = .freeing msg newNext → msg ∈ state.held thread
  linking : ∀ msg newNext, state.progress thread = .linking msg newNext →
    msg ∈ state.held thread ∧ state.next msg = newNext

/-- The invariant of the guarded runs. -/
structure Orderly (state : FreeList) : Prop where
  exclusive : Exclusive state
  freeing : ∀ thread, Freeing state thread

variable {state : FreeList} {thread : ThreadId} {msg : Message} {newNext : Option Message}
  {header : Message} {q : QueueId} {shm : Shm}

/-- A thread that is not about to free anything. -/
theorem freeing_of_elsewhere
    (elsewhere : ∀ msg newNext, state.progress thread ≠ .freeing msg newNext ∧
      state.progress thread ≠ .linking msg newNext) :
    Freeing state thread where
  storing msg newNext place := absurd place (elsewhere msg newNext).1
  linking msg newNext place := absurd place (elsewhere msg newNext).2

/-- A thread that has loaded the head to free a message it holds. -/
theorem freeing_of_loaded (loaded : state.progress thread = .freeing msg newNext)
    (held : msg ∈ state.held thread) : Freeing state thread where
  storing other otherNext place := by
    cases loaded.symm.trans place
    exact held
  linking other otherNext place := by cases loaded.symm.trans place

/-- A step of another thread that leaves the messages of this one alone. -/
theorem Freeing.frame {before after : FreeList} (freeing : Freeing before thread)
    (progress : after.progress thread = before.progress thread)
    (held : after.held thread = before.held thread)
    (next : ∀ msg ∈ before.held thread, after.next msg = before.next msg) :
    Freeing after thread where
  storing msg newNext place := held ▸ freeing.storing msg newNext (progress ▸ place)
  linking msg newNext place := by
    obtain ⟨member, stored⟩ := freeing.linking msg newNext (progress ▸ place)
    exact ⟨held ▸ member, (next msg member).trans stored⟩

section

variable (orderly : Orderly state)
include orderly

/-- A step that only moves one thread on, to a point where it frees nothing new. -/
theorem Orderly.moved {place : Progress}
    (here : Freeing { state with progress := update state.progress thread place } thread) :
    Orderly { state with progress := update state.progress thread place } := by
  constructor
  · exact ⟨orderly.exclusive.apart, orderly.exclusive.single, orderly.exclusive.nodup⟩
  · intro other
    by_cases same : other = thread
    · rw [same]
      exact here
    · exact (orderly.freeing other).frame (update_of_ne same ..) rfl fun _ _ => rfl

/-- A thread that has finished frees nothing, and the others go on. -/
theorem Orderly.freeing_idle (freeMessages : Option Message) (messages : List Message)
    (other : ThreadId) :
    Freeing { state with
      freeMessages
      held := update state.held thread messages
      progress := update state.progress thread .idle } other := by
  by_cases same : other = thread
  · apply freeing_of_elsewhere
    simp [same]
  · exact (orderly.freeing other).frame (update_of_ne same ..) (update_of_ne same ..)
      fun _ _ => rfl

/-- Allocation with an unchanged next pointer takes the first message of the list. -/
theorem Orderly.took (first : state.freeMessages = some header) :
    Orderly { state with
      freeMessages := state.next header
      held := update state.held thread (header :: state.held thread)
      progress := update state.progress thread .idle } := by
  obtain ⟨⟨cells, linked, cellsNodup, apart⟩, single, nodup⟩ := orderly.exclusive
  rw [first] at linked
  obtain ⟨rest, rfl, linkedRest⟩ := linked.pop
  obtain ⟨headerNew, restNodup⟩ := nodup_cons.mp cellsNodup
  have unheld : ∀ other, header ∉ state.held other := fun other member =>
    apart other header member mem_cons_self
  have grown : ∀ other msg, msg ∈ update state.held thread (header :: state.held thread) other →
      (other = thread ∧ msg = header) ∨ msg ∈ state.held other := by
    intro other msg member
    by_cases same : other = thread
    · subst same
      rw [update_self] at member
      exact (mem_cons.mp member).imp_left fun equal => ⟨rfl, equal⟩
    · rw [update_of_ne same] at member
      exact .inr member
  refine ⟨⟨⟨rest, linkedRest, restNodup, ?_⟩, ?_, ?_⟩, ?_⟩
  · intro other msg member inRest
    rcases grown other msg member with ⟨_, rfl⟩ | before
    · exact headerNew inRest
    · exact apart other msg before (mem_cons_of_mem header inRest)
  · intro one other msg inOne inOther
    rcases grown one msg inOne with ⟨rfl, rfl⟩ | oneBefore
    · rcases grown other msg inOther with ⟨rfl, _⟩ | otherBefore
      · rfl
      · exact absurd otherBefore (unheld other)
    · rcases grown other msg inOther with ⟨_, rfl⟩ | otherBefore
      · exact absurd oneBefore (unheld one)
      · exact single one other msg oneBefore otherBefore
  · exact (forall_update_iff _ _).mpr
      ⟨nodup_cons.mpr ⟨unheld thread, nodup thread⟩, fun other _ => nodup other⟩
  · exact orderly.freeing_idle _ _

/-- Storing the next pointer of a held message changes no message on the list. -/
theorem Orderly.stored (place : state.progress thread = .freeing msg newNext) :
    Orderly { state with
      next := update state.next msg newNext
      progress := update state.progress thread (.linking msg newNext) } := by
  obtain ⟨⟨cells, linked, cellsNodup, apart⟩, single, nodup⟩ := orderly.exclusive
  have held := (orderly.freeing thread).storing msg newNext place
  refine ⟨⟨⟨cells, ?_, cellsNodup, apart⟩, single, nodup⟩, ?_⟩
  · apply linked.congr
    intro cell member
    apply update_of_ne
    rintro rfl
    exact apart thread cell held member
  · intro other
    by_cases same : other = thread
    · subst same
      constructor
      · intro storedMsg storedNext storedPlace
        simp at storedPlace
      · intro storedMsg storedNext storedPlace
        simp only [update_self, Progress.linking.injEq] at storedPlace ⊢
        obtain ⟨rfl, rfl⟩ := storedPlace
        exact ⟨held, update_self ..⟩
    · refine (orderly.freeing other).frame (update_of_ne same ..) rfl ?_
      intro otherMsg otherHeld
      apply update_of_ne
      rintro rfl
      exact same (single other thread otherMsg otherHeld held)

/-- A successful exchange of a freeing thread puts its message in front. -/
theorem Orderly.freed (place : state.progress thread = .linking msg newNext)
    (unchanged : state.freeMessages = newNext) :
    Orderly { state with
      freeMessages := some msg
      held := update state.held thread ((state.held thread).erase msg)
      progress := update state.progress thread .idle } := by
  obtain ⟨⟨cells, linked, cellsNodup, apart⟩, single, nodup⟩ := orderly.exclusive
  obtain ⟨held, stored⟩ := (orderly.freeing thread).linking msg newNext place
  have shrunk : ∀ other kept,
      kept ∈ update state.held thread ((state.held thread).erase msg) other →
        kept ∈ state.held other ∧ kept ≠ msg := by
    intro other kept member
    by_cases same : other = thread
    · subst same
      rw [update_self] at member
      exact ⟨mem_of_mem_erase member, fun equal =>
        (nodup other).not_mem_erase (equal ▸ member)⟩
    · rw [update_of_ne same] at member
      refine ⟨member, ?_⟩
      rintro rfl
      exact same (single other thread kept member held)
  refine ⟨⟨⟨msg :: cells, ⟨rfl, ?_⟩, ?_, ?_⟩, ?_, ?_⟩, ?_⟩
  · simp only
    rw [stored, ← unchanged]
    exact linked
  · exact nodup_cons.mpr ⟨apart thread msg held, cellsNodup⟩
  · intro other kept member inside
    obtain ⟨before, different⟩ := shrunk other kept member
    rcases mem_cons.mp inside with equal | inCells
    · exact different equal
    · exact apart other kept before inCells
  · intro one other kept inOne inOther
    exact single one other kept (shrunk one kept inOne).1 (shrunk other kept inOther).1
  · exact (forall_update_iff _ _).mpr
      ⟨(nodup thread).erase msg, fun other _ => nodup other⟩
  · exact orderly.freeing_idle _ _

theorem guardedStep_orderly {next : FreeList} {event : FreeListEvent}
    (step : GuardedStep state event next) : Orderly next := by
  obtain ⟨taken, guard⟩ := step
  cases event with
  | getLoad thread =>
    obtain ⟨_, rfl⟩ := taken
    apply orderly.moved
    apply freeing_of_elsewhere
    simp
  | getNext thread =>
    obtain ⟨header, _, rfl⟩ := taken
    apply orderly.moved
    apply freeing_of_elsewhere
    simp
  | getExchange thread succeeds =>
    cases succeeds with
    | true =>
      obtain ⟨header, next, place, first, rfl⟩ := taken
      have unchanged := guard header next place
      subst unchanged
      exact orderly.took first
    | false =>
      obtain ⟨header, next, _, rfl⟩ := taken
      apply orderly.moved
      apply freeing_of_elsewhere
      simp
  | freeLoad thread msg =>
    obtain ⟨_, held, rfl⟩ := taken
    exact orderly.moved (freeing_of_loaded (update_self ..) held)
  | freeStore thread =>
    obtain ⟨msg, newNext, place, rfl⟩ := taken
    exact orderly.stored place
  | freeExchange thread succeeds =>
    cases succeeds with
    | true =>
      obtain ⟨msg, newNext, place, unchanged, rfl⟩ := taken
      exact orderly.freed place unchanged
    | false =>
      obtain ⟨msg, newNext, place, rfl⟩ := taken
      have held := ((orderly.freeing thread).linking msg newNext place).1
      exact orderly.moved (freeing_of_loaded (update_self ..) held)

end

/-- In every run in which no next pointer changes between the read and the exchange
of a successful allocation, the list stays apart from what the threads hold.

Proof: by induction on the run, with what each thread has read so far (`Orderly`). -/
theorem free_list_exclusive {initial final : FreeList} {events : List FreeListEvent}
    (start : Exclusive initial) (idle : ∀ thread, initial.progress thread = .idle)
    (run : Run GuardedStep initial events final) : Exclusive final := by
  have orderly : Orderly initial := by
    refine ⟨start, ?_⟩
    intro thread
    apply freeing_of_elsewhere
    simp [idle thread]
  have reached : Orderly final := run.invariant orderly fun _ _ _ orderly step =>
    guardedStep_orderly orderly step
  exact reached.exclusive

/-- The pool of the first sample queue, which nobody uses yet. -/
def sampleFreeList : FreeList :=
  ⟨some 20, nextOf sampleShm, fun _ => [], fun _ => .idle⟩

theorem sampleFreeList_exclusive : Exclusive sampleFreeList := by
  refine ⟨⟨samplePool 0, sampleShm_linked 0 20 (Nat.le_refl 20), sampleShm_stocked.nodup 0, ?_⟩,
    ?_, ?_⟩
  · intro thread msg member
    cases member
  · intro first second msg member
    cases member
  · intro thread
    exact nodup_nil

/-- One thread is about to take message 20 and has read 19 as its next; another takes
both and puts 20 back; then the first one's exchange succeeds. -/
def reusedHeader : List FreeListEvent :=
  [.getLoad 1, .getNext 1,
    .getLoad 2, .getNext 2, .getExchange 2 true,
    .getLoad 2, .getNext 2, .getExchange 2 true,
    .freeLoad 2 20, .freeStore 2, .freeExchange 2 true,
    .getExchange 1 true]

theorem reusedHeader_run : ∃ final, Run FreeListStep sampleFreeList reusedHeader final ∧
    final.freeMessages = some 19 ∧ 19 ∈ final.held 2 := by
  refine ⟨_, .snoc (.snoc (.snoc (.snoc (.snoc (.snoc (.snoc (.snoc
    (.snoc (.snoc (.snoc (.snoc (.nil _) ⟨rfl, rfl⟩) ⟨_, rfl, rfl⟩)
    ⟨rfl, rfl⟩) ⟨_, rfl, rfl⟩) ⟨_, _, rfl, rfl, rfl⟩)
    ⟨rfl, rfl⟩) ⟨_, rfl, rfl⟩) ⟨_, _, rfl, rfl, rfl⟩)
    ⟨rfl, by decide, rfl⟩) ⟨_, _, rfl, rfl⟩) ⟨_, _, rfl, rfl, rfl⟩)
    ⟨_, _, rfl, rfl, rfl⟩, ?_, ?_⟩
  · rfl
  · decide

/-- Not every interleaving keeps the list apart: the head of the list may be a message
that a thread holds. -/
theorem free_list_hands_out_twice : ¬ ∀ (initial final : FreeList) (events : List FreeListEvent),
    Exclusive initial → (∀ thread, initial.progress thread = .idle) →
      Run FreeListStep initial events final → Exclusive final := by
  intro always
  obtain ⟨final, run, first, held⟩ := reusedHeader_run
  obtain ⟨⟨cells, linked, _, apart⟩, _, _⟩ :=
    always _ final reusedHeader sampleFreeList_exclusive (fun _ => rfl) run
  rw [first] at linked
  obtain ⟨rest, rfl, _⟩ := linked.pop
  exact apart 2 19 held mem_cons_self

/-- Two threads have read the same head; the exchange of one succeeds, that of the other
fails, and it goes on with the new head. -/
def contendedHeader : List FreeListEvent :=
  [.getLoad 1, .getLoad 2, .getNext 1, .getNext 2, .getExchange 2 true, .getExchange 1 false,
    .getNext 1, .getExchange 1 true]

theorem contendedHeader_run : ∃ final, Run GuardedStep sampleFreeList contendedHeader final ∧
    final.held 1 = [19] ∧ final.held 2 = [20] := by
  refine ⟨_, .snoc (.snoc (.snoc (.snoc (.snoc (.snoc (.snoc (.snoc (.nil _)
    ⟨⟨rfl, rfl⟩, trivial⟩) ⟨⟨rfl, rfl⟩, trivial⟩)
    ⟨⟨_, rfl, rfl⟩, trivial⟩) ⟨⟨_, rfl, rfl⟩, trivial⟩)
    ⟨⟨_, _, rfl, rfl, rfl⟩, ?_⟩) ⟨⟨_, _, rfl, rfl⟩, trivial⟩)
    ⟨⟨_, rfl, rfl⟩, trivial⟩) ⟨⟨_, _, rfl, rfl, rfl⟩, ?_⟩, rfl, rfl⟩
  · rintro _ _ ⟨⟩
    rfl
  · rintro _ _ ⟨⟩
    rfl

theorem free_list_exclusive_sample : ∃ final,
    Run GuardedStep sampleFreeList contendedHeader final ∧
      final.held 1 = [19] ∧ final.held 2 = [20] ∧ Exclusive final := by
  obtain ⟨final, run, first, second⟩ := contendedHeader_run
  exact ⟨final, run, first, second,
    free_list_exclusive sampleFreeList_exclusive (fun _ => rfl) run⟩

end Miranda.RawQueue
