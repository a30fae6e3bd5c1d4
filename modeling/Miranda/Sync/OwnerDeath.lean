import Miranda.Sync.FutexMoves

/-!
# Mutual exclusion and the death of owners

Two histories are kept beside the system. One says which mutexes a thread holds, told
by where it is in the code: from the step with which its lock operation succeeds to the
step with which `mutex_unlock` gives the mutex back. The other says which mutexes are
orphaned: a thread that held them has died, and nobody has come back from locking them
since. The futex itself goes into neither of them.
-/

namespace Miranda.Sync

open Chain Runs State

variable {μ κ : Type} [DecidableEq μ]

/-- The system with its histories. -/
structure Audit (μ κ : Type) where
  state : State μ κ
  held : Tid → μ → Bool
  orphaned : μ → Bool

namespace Audit

def start (state : State μ κ) : Audit μ κ := ⟨state, fun _ _ => false, fun _ => false⟩

variable [DecidableEq κ]

/-- The histories after a step. -/
def record (audit : Audit μ κ) (label : Tid × Event μ κ) (after : State μ κ) : Audit μ κ where
  state := after
  held tid m :=
    if tid ≠ label.1 ∧ after.phase tid = audit.state.phase tid then audit.held tid m
    else (after.phase tid).holding m (audit.held tid m)
  orphaned m :=
    match label.2 with
    | .die _ => audit.orphaned m || audit.held label.1 m
    | _ => if (audit.state.phase label.1).returns = some m then false else audit.orphaned m

def take (audit : Audit μ κ) (label : Tid × Event μ κ) : Option (Audit μ κ) :=
  (audit.state.take label).map (audit.record label)

end Audit

abbrev AuditStep [DecidableEq κ] (audit : Audit μ κ) (label : Tid × Event μ κ)
    (after : Audit μ κ) : Prop :=
  audit.take label = some after

/-- How far a thread is with the flag of a given mutex. -/
def Phase.standing (m : μ) (phase : Phase μ κ) : Standing :=
  if phase.acquired = some m then phase.stage else .none

/-- The flag of a mutex agrees with its history. -/
def Reported (state : State μ κ) (orphaned : Bool) (m : μ) : Prop :=
  match (state.futex m).owner with
  | none => (state.futex m).died = orphaned
  | some tid => state.phase tid ≠ .dead ∧
      Settles (state.futex m).died orphaned ((state.phase tid).standing m)

structure Accounted (audit : Audit μ κ) : Prop where
  consistent : AllConsistent audit.state
  acquired : AcquiredOwned audit.state
  held : ∀ tid, audit.state.phase tid ≠ .dead → ∀ m,
    audit.held tid m = true ↔ Owns audit.state tid m
  reported : ∀ m, Reported audit.state (audit.orphaned m) m

section Places

variable {phase target : Phase μ κ} {m found : μ}

theorem standing_of_none (nothing : phase.acquired = none) (m : μ) :
    phase.standing m = .none := by
  rw [Phase.standing, nothing, if_neg nofun]

theorem standing_of_acquired (acquired : phase.acquired = some m) :
    phase.standing m = phase.stage := by
  rw [Phase.standing, if_pos acquired]

theorem standing_of_other (acquired : phase.acquired = some m) (different : found ≠ m) :
    phase.standing found = .none := by
  rw [Phase.standing, acquired, if_neg fun same => different (Option.some.inj same).symm]

theorem Stays.standing (stays : Stays phase target) (m : μ) :
    target.standing m = phase.standing m := by
  rcases stays with rfl | ⟨_, _, _, rfl, rfl⟩ <;> rfl

end Places

/-! ### What every step keeps -/

section Keeping

variable {state after : State μ κ} {tid other : Tid} {m : μ} {orphaned : Bool} {list : List μ}

theorem reported_of_free (free : (state.futex m).owner = none) :
    Reported state orphaned m ↔ (state.futex m).died = orphaned := by
  rw [Reported, free]

theorem reported_of_owns (owns : Owns state tid m) :
    Reported state orphaned m ↔ state.phase tid ≠ .dead ∧
      Settles (state.futex m).died orphaned ((state.phase tid).standing m) := by
  rw [Reported, owns]

/-- The owner of a mutex does nothing about it. -/
theorem Reported.congr (reported : Reported state orphaned m) (alike : Alike state after m)
    (owner : ∀ tid, Owns state tid m → state.phase tid ≠ .dead →
      after.phase tid ≠ .dead ∧ (after.phase tid).standing m = (state.phase tid).standing m) :
    Reported after orphaned m := by
  cases found : (state.futex m).owner with
  | none =>
    rw [reported_of_free (alike.1.trans found), alike.2]
    exact (reported_of_free found).mp reported
  | some tid =>
    obtain ⟨live, settles⟩ := (reported_of_owns found).mp reported
    obtain ⟨still, same⟩ := owner tid found live
    rw [reported_of_owns (alike.owns.mpr found), same, alike.2]
    exact ⟨still, settles⟩

/-- The flags agree with the history after a step. -/
theorem FutexMove.reported (move : FutexMove state tid after)
    (acquired : AcquiredOwned state)
    (reported : Reported state orphaned m) :
    Reported after (if (state.phase tid).returns = some m then false else orphaned) m := by
  have elsewhere (alike : Alike state after m)
      (mine : (after.phase tid).standing m = (state.phase tid).standing m) :
      Reported after orphaned m := by
    refine reported.congr alike ?_
    intro owner owns live
    by_cases same : owner = tid
    · subst same
      exact ⟨move.live, mine⟩
    · rcases move.bystander same with ⟨stays, _⟩ | ⟨get, found, waiting, finishes, lost, _⟩
      · exact ⟨stays.live live, stays.standing m⟩
      · have apart : m ≠ found := by
          rintro rfl
          exact lost owns
        rw [waiting, finishes, standing_of_other rfl apart]
        exact ⟨nofun, rfl⟩
  cases move with
  | keep before words target others =>
    rw [returns_of_acquired before]
    refine elsewhere (words m) ?_
    rw [standing_of_none before, standing_of_none target.acquired]
  | @acquire found before free words owner died target stage holding others =>
    rw [returns_of_acquired before]
    by_cases same : m = found
    · subst same
      rw [reported_of_owns owner, standing_of_acquired target]
      exact ⟨ne_dead_of_acquired target,
        stage orphaned (died.trans ((reported_of_free free).mp reported))⟩
    · refine elsewhere (words m same) ?_
      rw [standing_of_none before, standing_of_other target same]
  | @settle found before returns words owner target stage holding others =>
    rw [returns]
    by_cases same : m = found
    · subst same
      have own := acquired tid m before
      have settles := ((reported_of_owns own).mp reported).2
      rw [standing_of_acquired before] at settles
      rw [reported_of_owns (owner.trans own), standing_of_acquired target]
      exact ⟨ne_dead_of_acquired target, stage orphaned settles⟩
    · refine elsewhere (words m same) ?_
      rw [standing_of_other before same, standing_of_other target same]
  | @comeBack found died before returns stage words target others =>
    by_cases same : m = found
    · subst same
      have own := acquired tid m before
      have settles := ((reported_of_owns own).mp reported).2
      rw [standing_of_acquired before, stage] at settles
      rw [if_pos returns, reported_of_owns ((words m).owns.mpr own),
        standing_of_none target.acquired, (words m).2]
      exact ⟨target.live, settles.1, rfl⟩
    · rw [returns, if_neg fun this => same (Option.some.inj this).symm]
      refine elsewhere (words m) ?_
      rw [standing_of_other before same, standing_of_none target.acquired]
  | @release found heir before own words owner died target holding live heirs others =>
    rw [returns_of_acquired before, if_neg nofun]
    by_cases same : m = found
    · subst same
      have settles := ((reported_of_owns own).mp reported).2
      rw [standing_of_none before] at settles
      cases heir with
      | none =>
        rw [reported_of_free owner, died, settles.2]
      | some waiter =>
        obtain ⟨_, get, _, finishes⟩ := heirs waiter rfl
        rw [reported_of_owns owner, finishes, standing_of_acquired rfl, died, settles.2]
        exact ⟨nofun, rfl⟩
    · refine elsewhere (words m same) ?_
      rw [standing_of_none before, standing_of_none target]

/-! ### Deaths -/

/-- A dead thread owns nothing, and everything it owned says so. -/
theorem exit_futex (consistent : Consistent state tid (state.phase tid) list) {visited : List μ}
    (visits : state.Visits tid visited) (m : μ) :
    (state.exit tid visited).futex m =
      if (state.futex m).owner = some tid then { state.futex m with owner := none, died := true }
      else state.futex m := by
  have same : list.map _ = visited.map _ :=
    consistent.path.unique visits (head_not_mem_map list) (head_not_mem_map visited)
  show (if _ then _ else _) = _
  by_cases own : (state.futex m).owner = some tid
  · rw [if_pos own, if_pos]
    refine ⟨?_, own⟩
    rcases (consistent.owned m).mp own with member | loose
    · rw [← mutex_mem_map, same, mutex_mem_map] at member
      exact .inl member
    · rw [consistent.pending, Phase.pending_of_loose loose]
      exact .inr rfl
  · rw [if_neg own, if_neg fun both => own both.2]

theorem exit_reported (consistent : Consistent state tid (state.phase tid) list)
    {visited : List μ} (visits : state.Visits tid visited) {held : Bool}
    (history : held = true ↔ Owns state tid m) (reported : Reported state orphaned m) :
    Reported (state.exit tid visited) (orphaned || held) m := by
  have stored := exit_futex consistent visits m
  by_cases own : (state.futex m).owner = some tid
  · rw [if_pos own] at stored
    rw [history.mpr own, Bool.or_true, reported_of_free (by rw [stored]), stored]
  · rw [if_neg own] at stored
    rw [Bool.eq_false_iff.mpr fun held => own (history.mp held), Bool.or_false]
    refine reported.congr (by rw [Alike, stored]; exact ⟨rfl, rfl⟩) ?_
    intro owner owns live
    have different : owner ≠ tid := by
      rintro rfl
      exact own owns
    rw [State.exit, goto_phase_other _ different]
    exact ⟨live, rfl⟩

end Keeping

section Histories

variable {audit after : Audit μ κ} {state : State μ κ} {tid : Tid} {m : μ}
  {label : Tid × Event μ κ}

theorem accounted_start (fresh : state.Fresh) : Accounted (Audit.start state) where
  consistent := fresh.allConsistent
  acquired := fresh.acquiredOwned
  held tid _ m := by
    show false = true ↔ (state.futex m).owner = some tid
    rw [fresh.futex]
    exact iff_of_false nofun nofun
  reported m := by
    show Reported state false m
    rw [reported_of_free (by rw [fresh.futex]), fresh.futex]

variable [DecidableEq κ]

/-- Threads that a step does not concern keep what they hold. -/
theorem record_held_of_stays (different : tid ≠ label.1)
    (stays : Stays (audit.state.phase tid) (state.phase tid)) :
    (audit.record label state).held tid m = audit.held tid m := by
  show (if _ then _ else _) = _
  split
  · rfl
  · next changed =>
    rcases stays with kept | ⟨_, _, _, _, woken⟩
    · exact absurd ⟨different, kept⟩ changed
    · rw [woken]
      rfl

/-- A step that is not a death. -/
theorem Accounted.move (accounted : Accounted audit) (consistent : AllConsistent state)
    (live : audit.state.phase label.1 ≠ .dead) (move : FutexMove audit.state label.1 state)
    (alive : ∀ list, label.2 ≠ .die list) : Accounted (audit.record label state) where
  consistent := consistent
  acquired := move.acquired accounted.acquired
  held tid still m := by
    by_cases same : tid = label.1
    · subst same
      show (if _ then _ else _) = true ↔ _
      rw [if_neg fun both => both.1 rfl]
      exact move.holding accounted.acquired (accounted.held _ live m)
    · rcases move.bystander same with
        ⟨stays, owns⟩ | ⟨get, found, waiting, finishes, _, owns⟩
      · rw [record_held_of_stays same stays]
        exact (accounted.held tid (stays.of_live still) m).trans (owns m).symm
      · show (if _ then _ else _) = true ↔ Owns state tid m
        rw [if_neg, finishes, owns]
        · show (_ || _) = true ↔ _
          rw [Bool.or_eq_true, decide_eq_true_iff, accounted.held tid (by rw [waiting]; exact nofun)]
        · rw [waiting, finishes]
          exact fun both => nomatch both.2
  reported m := by
    have orphaned : (audit.record label state).orphaned m =
        if (audit.state.phase label.1).returns = some m then false else audit.orphaned m := by
      unfold Audit.record
      split
      · next list dies => exact absurd dies (alive list)
      · rfl
    rw [orphaned]
    exact move.reported accounted.acquired (accounted.reported m)

theorem Accounted.die {visited : List μ} (accounted : Accounted audit)
    (consistent : AllConsistent (audit.state.exit tid visited))
    (live : audit.state.phase tid ≠ .dead) (visits : audit.state.Visits tid visited) :
    Accounted (audit.record (tid, .die visited) (audit.state.exit tid visited)) where
  consistent := consistent
  acquired := exit_acquired accounted.acquired
  held other still m := by
    have different : other ≠ tid := by
      rintro rfl
      exact still (goto_phase _ _ _)
    have kept : (audit.state.exit tid visited).phase other = audit.state.phase other :=
      goto_phase_other _ different
    rw [record_held_of_stays different (.inl kept)]
    exact (accounted.held other (kept ▸ still) m).trans ((exit_spares different).owner m).symm
  reported m := by
    obtain ⟨list, own⟩ := accounted.consistent tid live
    exact exit_reported own visits (accounted.held tid live m) (accounted.reported m)

theorem AuditStep.accounted (step : AuditStep audit label after) (accounted : Accounted audit) :
    Accounted after := by
  obtain ⟨tid, event⟩ := label
  obtain ⟨state, taken, rfl⟩ := Option.map_eq_some_iff.mp step
  have consistent := Step.allConsistent taken accounted.consistent
  have move := step_moves taken
  cases event with
  | die visited =>
    cases move with
    | die live visits => exact accounted.die consistent live visits
  | _ =>
    obtain ⟨live, onFutexes⟩ := move.futexMove accounted.consistent nofun
    exact accounted.move consistent live onFutexes nofun

end Histories

/-- In every run, at any point, no two live threads hold the same mutex; and a thread
that comes back from locking a mutex, by whichever path, returns 1 if a thread has died
holding it since the last time that one came back from locking it, and 0 if not.

Proof: by induction on the run holders are owners, and where a thread is with the flag of
its mutex agrees with whether it is orphaned (`Accounted`). -/
theorem mutex_exclusive_and_death_reported [DecidableEq κ] {initial : State μ κ}
    {final : Audit μ κ} {labels : List (Tid × Event μ κ)} (fresh : initial.Fresh)
    (run : Run AuditStep (Audit.start initial) labels final) :
    (∀ m tid other, final.state.phase tid ≠ .dead → final.state.phase other ≠ .dead →
      final.held tid m = true → final.held other m = true → tid = other) ∧
    ∀ tid call m died, final.state.phase tid = .close call m (.locked died) →
      (Result.locked died).code = if final.orphaned m then 1 else 0 := by
  have accounted : Accounted final := run.invariant (accounted_start fresh)
    fun _ _ _ accounted step => AuditStep.accounted step accounted
  constructor
  · intro m tid other live alive holds also
    exact ((accounted.held tid live m).mp holds).unique ((accounted.held other alive m).mp also)
  · intro tid call m died phase
    have acquired : (final.state.phase tid).acquired = some m := by
      rw [phase]
      rfl
    have reported := (reported_of_owns (accounted.acquired tid m acquired)).mp (accounted.reported m)
    rw [standing_of_acquired acquired, phase] at reported
    rw [← reported.2.2]
    cases died <;> rfl

/-- A thread dies holding a mutex, and another one locks it. -/
def inherited : List (Tid × Event Bool Unit) :=
  (Event.call (.lock false) :: List.replicate 7 (.advance .proceed) ++ [Event.die [false]]).map
      (fun event => (1, event)) ++
    (Event.call (.lock false) :: List.replicate 2 (.advance .proceed) ++
      Event.advance (.acquire false) :: List.replicate 6 (.advance .proceed)).map
      fun event => (2, event)

theorem mutex_exclusive_and_death_reported_sample :
    ∃ final, Run AuditStep (Audit.start calm) inherited final ∧ final.held 2 false = true ∧
      final.orphaned false = true ∧
      final.state.phase 2 = .close (.doGet (.get true false)) false (.locked true) ∧
      (∀ other, final.state.phase other ≠ .dead → final.held other false = true → 2 = other) ∧
      (Result.locked true).code = if final.orphaned false then 1 else 0 := by
  have executed : (inherited.foldlM Audit.take (.start calm)).map
      (fun audit => (audit.held 2 false, audit.orphaned false, audit.state.phase 2)) =
      some (true, true, .close (.doGet (.get true false)) false (.locked true)) := by decide
  obtain ⟨final, reached, shown⟩ := Option.map_eq_some_iff.mp executed
  obtain ⟨holds, rest⟩ := Prod.mk.inj shown
  obtain ⟨orphaned, phase⟩ := Prod.mk.inj rest
  have run : Run AuditStep _ inherited final :=
    .of_foldlM (fun _ _ _ taken => taken) (.nil _) inherited reached
  obtain ⟨exclusive, reported⟩ := mutex_exclusive_and_death_reported calm_fresh run
  have live : final.state.phase 2 ≠ .dead := by
    rw [phase]
    exact nofun
  exact ⟨final, run, holds, orphaned, phase,
    fun other alive also => exclusive false 2 other live alive holds also,
    reported 2 _ false true phase⟩

end Miranda.Sync
