import Miranda.Lib.Runs
import Miranda.Sync.Links

/-!
# The robust list at every point of a run

A step of one thread leaves alone the links of the mutexes that other threads own, so
that the list of every thread is consistent at every point of a run, whatever the
others do and wherever they die.
-/

namespace Miranda.Sync

open Chain Runs State List

variable {μ κ : Type}

/-- The lists of all threads that are alive. -/
def AllConsistent (state : State μ κ) : Prop :=
  ∀ tid, state.phase tid ≠ .dead → ∃ list, Consistent state tid (state.phase tid) list

/-! ### Steps of other threads -/

/-- What a thread owns, and the links of it, are left alone. -/
structure Spares (state after : State μ κ) (tid : Tid) : Prop where
  pending : after.pending tid = state.pending tid
  owner : ∀ m, Owns after tid m ↔ Owns state tid m
  head : after.next (.head tid) = state.next (.head tid)
  next : ∀ m, Owns state tid m → after.next (.mutex m) = state.next (.mutex m)
  previous : ∀ m, Owns state tid m → after.previous (.mutex m) = state.previous (.mutex m)

/-- A node in the list of a thread. -/
def Mine (state : State μ κ) (tid : Tid) (node : Node μ) : Prop :=
  node = .head tid ∨ ∃ m, node = .mutex m ∧ Owns state tid m

section Others

variable {state after : State μ κ} {tid other : Tid} {phase : Phase μ κ} {list : List μ}
  {node value : Node μ} {m : μ}

theorem Consistent.spared (consistent : Consistent state tid phase list)
    (spares : Spares state after tid) : Consistent after tid phase list :=
  { consistent with
    path := by
      refine consistent.path.congr ?_
      intro place member
      rcases mem_cons.mp member with rfl | inside
      · exact spares.head
      · obtain ⟨m, inList, rfl⟩ := mem_map.mp inside
        exact spares.next m ((consistent.owned m).mpr (.inl inList))
    owned m := (spares.owner m).trans (consistent.owned m)
    pending := spares.pending.trans consistent.pending
    links := consistent.links.congr spares.head
      (fun m loose => spares.next m ((consistent.owned m).mpr (.inr loose)))
      fun m member => spares.previous m ((consistent.owned m).mpr (.inl member)) }

theorem State.Fresh.allConsistent (fresh : state.Fresh) : AllConsistent state := by
  intro tid _
  rw [fresh.phase]
  refine ⟨[], fresh.next tid, nodup_nil, ?_, by rintro _ ⟨⟩, fresh.pending tid, trivial⟩
  intro m
  rw [Owns, fresh.futex]
  exact iff_of_false (by rintro ⟨⟩) (by rintro (⟨⟨⟩⟩ | ⟨⟨⟩⟩))

theorem spares_same (futex : after.futex = state.futex) (next : after.next = state.next)
    (previous : after.previous = state.previous)
    (pending : after.pending tid = state.pending tid) : Spares state after tid where
  pending := pending
  owner m := by rw [Owns, Owns, futex]
  head := by rw [next]
  next m _ := by rw [next]
  previous m _ := by rw [previous]

/-- What another thread does between its steps on the links. -/
theorem Spares.goto (spares : Spares state after tid) (target : Phase μ κ) :
    Spares state (after.goto other target) tid :=
  ⟨spares.pending, spares.owner, spares.head, spares.next, spares.previous⟩

/-- A thread owns nothing that another one owns. -/
theorem Owns.unique (owns : Owns state tid m) (also : Owns state other m) : tid = other :=
  Option.some.inj (owns.symm.trans also)

theorem Mine.ne_mutex (mine : Mine state tid node) (different : other ≠ tid)
    (owns : Owns state other m) : Node.mutex m ≠ node := by
  rintro rfl
  rcases mine with same | ⟨found, same, own⟩
  · cases same
  · cases same
    exact different (owns.unique own)

theorem Mine.ne_head (mine : Mine state tid node) (different : other ≠ tid) :
    Node.head other ≠ node := by
  rintro rfl
  rcases mine with same | ⟨found, same, own⟩
  · cases same
    exact different rfl
  · cases same

/-- The nodes of a thread's list. -/
theorem Consistent.mine (consistent : Consistent state tid phase list)
    (member : node ∈ Node.head tid :: list.map Node.mutex) : Mine state tid node := by
  rcases mem_cons.mp member with rfl | inside
  · exact .inl rfl
  · obtain ⟨m, inList, rfl⟩ := mem_map.mp inside
    exact .inr ⟨m, rfl, (consistent.owned m).mpr (.inl inList)⟩

theorem headD_mem (rest : List μ) (node : Node μ) :
    (rest.map Node.mutex).headD node ∈ node :: rest.map Node.mutex := by
  cases rest with
  | nil => exact mem_cons_self
  | cons first more => exact mem_cons_of_mem node mem_cons_self

theorem spares_setPending {pending : Option μ} (different : other ≠ tid) :
    Spares state (state.setPending tid pending) other :=
  spares_same rfl rfl rfl <| by
    exact Function.update_of_ne different _ _

/-- Being woken changes nothing about the list. -/
theorem Consistent.awake (consistent : Consistent state tid phase list) :
    Consistent state tid (awake phase) list := by
  cases phase with
  | sleeping c m start =>
    exact ⟨consistent.path, consistent.distinct, consistent.owned, consistent.loose,
      consistent.pending, consistent.links⟩
  | _ => exact consistent

variable [DecidableEq μ]

theorem spares_setNext (mine : Mine state tid node) (different : other ≠ tid) :
    Spares state (state.setNext node value) other where
  pending := rfl
  owner _ := .rfl
  head := by
    exact Function.update_of_ne (mine.ne_head different) _ _
  next _ owns := by
    exact Function.update_of_ne (mine.ne_mutex different owns) _ _
  previous _ _ := rfl

theorem spares_setPrevious (mine : Mine state tid node) (different : other ≠ tid) :
    Spares state (state.setPrevious node value) other where
  pending := rfl
  owner _ := .rfl
  head := rfl
  next _ _ := rfl
  previous _ owns := by
    exact Function.update_of_ne (mine.ne_mutex different owns) _ _

theorem spares_setBack (mine : Mine state tid node) (different : other ≠ tid) :
    Spares state (state.setBack node value) other := by
  cases node with
  | head _ => exact spares_same rfl rfl rfl rfl
  | mutex m => exact spares_setPrevious mine different

/-- A futex changes that the thread neither owned before nor owns then. -/
theorem spares_setFutex {word : Word} (before : ¬ Owns state other m)
    (afterwards : word.owner ≠ some other) : Spares state (state.setFutex m word) other where
  pending := rfl
  owner found := by
    have stored : (state.setFutex m word).futex = Function.update _ m word := rfl
    rw [owns_update stored]
    split
    · next here =>
      rw [here]
      exact iff_of_false afterwards before
    · rfl
  head := rfl
  next _ _ := rfl
  previous _ _ := rfl

/-- A futex may change in every other way while its owner stays. -/
theorem spares_same_owner {word : Word} (same : word.owner = (state.futex m).owner) :
    Spares state (state.setFutex m word) other where
  pending := rfl
  owner _ := owns_same_owner rfl same
  head := rfl
  next _ _ := rfl
  previous _ _ := rfl

theorem advanceAdd_spares {adding : Adding κ} {stage : AddStage μ}
    (consistent : Consistent state tid (.add adding m stage) list) (different : other ≠ tid) :
    Spares state (state.advanceAdd tid adding m stage) other := by
  cases stage with
  | next =>
    have own := (consistent.owned m).mpr (.inr rfl)
    exact (spares_setNext (.inr ⟨m, rfl, own⟩) different).goto _
  | head old => exact (spares_setNext (.inl rfl) different).goto _
  | previous old =>
    obtain ⟨rest, rfl, _⟩ := consistent.links
    have own := (consistent.owned m).mpr (.inl mem_cons_self)
    exact (spares_setPrevious (.inr ⟨m, rfl, own⟩) different).goto _
  | back old =>
    obtain ⟨rest, rfl, _, _, rfl⟩ := consistent.links
    refine (spares_setBack (consistent.mine ?_) different).goto _
    exact cons_subset_cons _ (map_subset _ (subset_cons_self m rest))
      (headD_mem rest _)

/-- What the kernel does about a dead thread leaves the others alone. -/
theorem exit_spares (different : other ≠ tid) : Spares state (state.exit tid list) other where
  pending := rfl
  owner m := by
    show (State.futex _ m).owner = some other ↔ _
    simp only [State.exit, goto, Owns]
    split
    · next mine =>
      rw [mine.2]
      exact iff_of_false (by rintro ⟨⟩) fun same => different (Option.some.inj same).symm
    · rfl
  head := rfl
  next _ _ := rfl
  previous _ _ := rfl

variable [DecidableEq κ]

/-- A step of another thread that neither hands over to this one nor wakes it. -/
theorem Move.spares (move : Move state tid after)
    (consistent : Consistent state tid (state.phase tid) list) (different : other ≠ tid)
    (kept : after.phase other = state.phase other) : Spares state after other := by
  cases move with
  | adder phase | deadlock phase | close phase | notOwner phase | unlockPending phase
  | unlockClose phase =>
    exact (spares_setPending different).goto _
  | getSwap phase free | trySwap phase free =>
    refine (spares_setFutex ?_ fun same => different (Option.some.inj same).symm).goto _
    exact not_owns_of_free (by rw [free])
  | getTaken phase | signal phase | timedOut phase | tryDied phase | tryTaken phase
  | finishDied phase | finish phase | check phase | contended phase | read phase | sleep phase
  | again phase | waitInterrupted phase | sleepInterrupted phase | spurious phase
  | increment phase | wake phase =>
    exact spares_same rfl rfl rfl rfl
  | acquire waiters phase free | tryAcquire waiters phase free =>
    refine (spares_setFutex ?_ fun same => different (Option.some.inj same).symm).goto _
    exact not_owns_of_free free
  | block phase => exact spares_same_owner rfl
  | clear phase =>
    refine .goto ?_ _
    exact spares_same_owner rfl
  | add phase =>
    rw [phase] at consistent
    exact advanceAdd_spares consistent different
  | @unlockNext m wait phase =>
    rw [phase] at consistent
    obtain ⟨back, member⟩ := consistent.links
    have inside := back.mem (mutex_mem_map.mpr member)
    exact (spares_setNext (consistent.mine inside) different).goto _
  | @unlockBack m wait previous next phase =>
    rw [phase] at consistent
    obtain ⟨front, rest, rfl, _, _, _, rfl⟩ := consistent.links
    refine (spares_setBack (consistent.mine ?_) different).goto _
    exact cons_subset_cons _ (map_subset _ (subset_append_right front rest))
      (headD_mem rest _)
  | @release m wait phase =>
    have own : Owns state tid m := by
      refine (consistent.owned m).mpr (.inr ?_)
      rcases phase with phase | phase <;> rw [phase] <;> rfl
    refine .goto (spares_setFutex (fun also => different (also.unique own)) ?_) _
    exact nofun
  | @handOver m wait waiter get waiters phase waiting =>
    have own : Owns state tid m := by
      refine (consistent.owned m).mpr (.inr ?_)
      rw [phase]
      rfl
    have stranger : some waiter ≠ some other := by
      rintro ⟨⟩
      rw [goto_phase_other _ different, goto_phase, waiting] at kept
      cases kept
    exact ((spares_setFutex (fun also => different (also.unique own)) stranger).goto _).goto _

/-- Every step of a thread keeps the lists of the others consistent. -/
theorem Move.consistent_other (move : Move state tid after) {own : List μ}
    (consistent : Consistent state tid (state.phase tid) own) (different : other ≠ tid)
    (theirs : Consistent state other (state.phase other) list) :
    Consistent after other (after.phase other) list := by
  by_cases kept : after.phase other = state.phase other
  · rw [kept]
    exact theirs.spared (move.spares consistent different kept)
  · cases move with
    | @handOver m wait waiter get waiters phase waiting =>
      rw [goto_phase_other _ different] at kept ⊢
      by_cases same : other = waiter
      · subst same
        rw [goto_phase]
        rw [waiting] at theirs
        have mine : Owns state tid m := by
          refine (consistent.owned m).mpr (.inr ?_)
          rw [phase]
          rfl
        exact theirs.take (fun also => different (also.unique mine)) rfl rfl rfl rfl rfl
          theirs.pending theirs.links
      · exact absurd (goto_phase_other _ same) kept
    | @wake c broadcast woken phase distinct asleep count =>
      rw [rouse, goto_phase_other _ different] at kept ⊢
      dsimp only at kept ⊢
      split at kept
      · next chosen =>
        rw [if_pos chosen]
        exact theirs.awake.spared (spares_same rfl rfl rfl rfl)
      · exact absurd rfl kept
    | @add adding m stage phase =>
      cases stage with
      | back old =>
        exact absurd ((goto_phase_other _ different).trans
          (congrFun (setBack_phase _ _ _) other)) kept
      | _ => exact absurd (goto_phase_other _ different) kept
    | @unlockBack m wait previous next phase =>
      exact absurd ((goto_phase_other _ different).trans
        (congrFun (setBack_phase _ _ _) other)) kept
    | block phase => exact absurd rfl kept
    | waitInterrupted phase => exact absurd rfl kept
    | _ => exact absurd (goto_phase_other _ different) kept

theorem Step.allConsistent {label : Tid × Event μ κ} (step : Step state label after)
    (all : AllConsistent state) : AllConsistent after := by
  obtain ⟨mover, event⟩ := label
  intro other live
  cases step_moves step with
  | call operation idle =>
    by_cases same : other = mover
    · subst same
      obtain ⟨list, consistent⟩ := all other (by rw [idle]; exact nofun)
      rw [idle] at consistent
      have plain := begin_plain operation
      rw [goto_phase]
      refine ⟨list, consistent.goto plain.loose plain.pending ?_⟩
      rw [plain.links]
      exact consistent.links
    · rw [goto_phase_other _ same] at live ⊢
      obtain ⟨list, consistent⟩ := all other live
      exact ⟨list, consistent.spared (spares_same rfl rfl rfl rfl)⟩
  | advance move =>
    obtain ⟨own, consistent⟩ := all mover move.live
    by_cases same : other = mover
    · subst same
      exact move.consistent consistent
    · have alive : state.phase other ≠ .dead := by
        rcases move.phase_other same with kept | ⟨_, _, waiting, _⟩ | ⟨_, _, _, asleep, _⟩
        · rwa [kept] at live
        · rw [waiting]
          exact nofun
        · rw [asleep]
          exact nofun
      obtain ⟨list, theirs⟩ := all other alive
      exact ⟨list, move.consistent_other consistent same theirs⟩
  | @die list alive visits =>
    by_cases same : other = mover
    · subst same
      exact absurd (goto_phase _ _ _) live
    · rw [State.exit, goto_phase_other _ same] at live
      obtain ⟨theirs, consistent⟩ := all other live
      rw [State.exit, goto_phase_other _ same]
      exact ⟨theirs, consistent.spared (exit_spares same)⟩

end Others

/-- At every point of every run the next pointers of a live thread lead from the head of
its robust list back to it, past distinct mutexes that the thread owns; every mutex it
owns is one of these or is pending. Between calls these are exactly the mutexes it
holds, nothing is pending and the previous pointers are the inverse of the next
pointers.

Proof: a step keeps the list of its thread consistent (`Move.consistent`) and spares those
of others (`Move.spares`). -/
theorem robust_list_consistent [DecidableEq μ] [DecidableEq κ] {initial final : State μ κ}
    {labels : List (Tid × Event μ κ)} (fresh : initial.Fresh) (run : Run Step initial labels final)
    (tid : Tid) (live : final.phase tid ≠ .dead) :
    ∃ list : List μ, Path final.next (.head tid) (list.map .mutex) (.head tid) ∧ list.Nodup ∧
      (∀ m ∈ list, (final.futex m).owner = some tid ∨ final.pending tid = some m) ∧
      (∀ m, (final.futex m).owner = some tid → m ∈ list ∨ final.pending tid = some m) ∧
      (final.phase tid = .idle →
        (∀ m, m ∈ list ↔ (final.futex m).owner = some tid) ∧ final.pending tid = none ∧
          Back final.previous (.head tid) (list.map .mutex)) := by
  have all : AllConsistent final := run.invariant fresh.allConsistent
    fun _ _ _ all step => Step.allConsistent step all
  obtain ⟨list, consistent⟩ := all tid live
  refine ⟨list, consistent.path, consistent.distinct, ?_, ?_, ?_⟩
  · intro m member
    exact .inl ((consistent.owned m).mpr (.inl member))
  · intro m own
    refine ((consistent.owned m).mp own).imp id fun loose => ?_
    rw [consistent.pending, Phase.pending_of_loose loose]
  · intro idle
    rw [idle] at consistent
    refine ⟨?_, consistent.pending, consistent.links⟩
    intro m
    rw [← Owns, consistent.owned]
    exact (or_iff_left (by rintro ⟨⟩)).symm

/-- Two mutexes and one condition before anything has happened. -/
def calm : State Bool Unit where
  futex _ := .free
  next node := node
  previous node := node
  pending _ := none
  condition _ := 0
  sleepers _ := []
  phase _ := .idle

theorem calm_fresh : calm.Fresh where
  futex _ := rfl
  next _ := rfl
  pending _ := rfl
  sleepers _ := rfl
  phase _ := rfl

/-- A thread locks one mutex and is cut off in locking the other, after the store to the
head of its list. -/
def cutOff : List (Tid × Event Bool Unit) :=
  (Event.call (.lock false) :: List.replicate 7 (.advance .proceed) ++
    Event.call (.lock true) :: List.replicate 4 (.advance .proceed)).map fun event => (1, event)

theorem robust_list_consistent_sample :
    ∃ final, Run Step calm cutOff final ∧ final.next (.head 1) = .mutex true ∧
      final.previous (.mutex false) = .head 1 ∧
      ∃ list : List Bool, Path final.next (.head 1) (list.map .mutex) (.head 1) ∧ list.Nodup ∧
        ∀ m, (final.futex m).owner = some 1 → m ∈ list ∨ final.pending 1 = some m := by
  have executed : (cutOff.foldlM State.take calm).map
      (fun state => (state.next (.head 1), state.previous (.mutex false), state.phase 1)) =
      some (.mutex true, .head 1,
        .add (.doGet (.get true false) false) true (.previous (.mutex false))) := by decide
  obtain ⟨final, reached, shown⟩ := Option.map_eq_some_iff.mp executed
  obtain ⟨starts, rest⟩ := Prod.mk.inj shown
  obtain ⟨back, phase⟩ := Prod.mk.inj rest
  have run : Run Step calm cutOff final :=
    .of_foldlM (fun _ _ _ taken => taken) (.nil _) cutOff reached
  obtain ⟨list, path, distinct, _, found, _⟩ :=
    robust_list_consistent calm_fresh run 1 (by rw [phase]; exact nofun)
  exact ⟨final, run, starts, back, list, path, distinct, found⟩

end Miranda.Sync
