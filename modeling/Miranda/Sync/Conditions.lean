import Mathlib.Data.Fintype.Card
import Miranda.Sync.FutexMoves

/-!
# What a step of a thread does to the conditions

As far as conditions go a thread reads its `wait_start`, goes to sleep or does not, is
interrupted, comes back, increments a condition, wakes sleepers or does something else.
`WaitMove` says so for each place in the code. The kernel's lists of sleepers have
exactly the threads that are asleep, so that a broadcast wakes all of them.
-/

namespace Miranda.Sync

open Chain Runs State Function

variable {μ κ : Type}

/-! ### Places in the code -/

/-- The condition of a wait that is not over, with its `wait_start`. -/
def Phase.waiting : Phase μ κ → Option (κ × UInt32)
  | .unlock _ wait _ => wait
  | .adder (.doGet (.wait c start)) _ | .futexWait c _ start | .sleeping c _ start =>
    some (c, start)
  | _ => none

/-- The condition of a wait that is over while the mutex is being locked again. -/
def Phase.relocking : Phase μ κ → Option κ
  | .getSwap (.wait c _) _ | .lockPi (.wait c _) _ | .finish (.doGet (.wait c _)) _
  | .clear (.doGet (.wait c _)) _ | .add (.doGet (.wait c _) _) _ _
  | .close (.doGet (.wait c _)) _ _ => some c
  | _ => none

/-- The condition that a thread sleeps on. -/
def Phase.asleep : Phase μ κ → Option κ
  | .sleeping c _ _ => some c
  | _ => none

/-- The condition on which `FUTEX_WAKE` is about to be called. -/
def Phase.waking : Phase μ κ → Option κ
  | .wake c _ => some c
  | _ => none

/-- All that the conditions have to do with a place in the code. -/
structure Stand (κ : Type) where
  waiting : Option (κ × UInt32) := none
  relocking : Option κ := none
  asleep : Option κ := none
  waking : Option κ := none

def Phase.stand (phase : Phase μ κ) : Stand κ where
  waiting := phase.waiting
  relocking := phase.relocking
  asleep := phase.asleep
  waking := phase.waking

/-! ### Steps on the conditions -/

/-- Whether a thread is at a step that concerns the conditions. -/
def Phase.concerned : Phase μ κ → Bool
  | .read _ _ | .futexWait _ _ _ | .sleeping _ _ _ | .increment _ _ | .wake _ _ => true
  | _ => false

/-- A thread goes on without reading a condition, going to sleep or being woken. -/
structure Passes (phase target : Phase μ κ) : Prop where
  waiting : ∀ wait, target.waiting = some wait → phase.waiting = some wait
  relocking : ∀ c, target.relocking = some c → phase.relocking = some c
  asleep : target.asleep = phase.asleep
  waking : target.waking = phase.waking

theorem Passes.refl (phase : Phase μ κ) : Passes phase phase :=
  ⟨fun _ same => same, fun _ same => same, rfl, rfl⟩

variable {phase target : Phase μ κ}

/-- The end of an operation. -/
theorem passes_out (out : target.stand = ⟨none, none, phase.asleep, phase.waking⟩) :
    Passes phase target where
  waiting _ same := nomatch (congrArg Stand.waiting out).symm.trans same
  relocking _ same := nomatch (congrArg Stand.relocking out).symm.trans same
  asleep := congrArg Stand.asleep out
  waking := congrArg Stand.waking out

theorem passes_same (same : target.stand = phase.stand) : Passes phase target where
  waiting _ waits := (congrArg Stand.waiting same).symm.trans waits
  relocking _ locks := (congrArg Stand.relocking same).symm.trans locks
  asleep := congrArg Stand.asleep same
  waking := congrArg Stand.waking same

theorem afterAdder_passes (m : μ) (call : Call κ) :
    Passes (.adder call m) (afterAdder m call) := by
  cases call with
  | doGet get => cases get <;> exact passes_same rfl
  | trylock => exact passes_same rfl

theorem afterSignal_passes (get : Get κ) (m : μ) :
    Passes (.lockPi get m) (afterSignal get m) := by
  unfold afterSignal
  cases get <;> split <;> exact passes_same rfl

theorem afterFinish_passes (m : μ) (died : Bool) (call : Call κ) :
    Passes (.finish call m) (afterFinish m died call) := by
  cases call with
  | doGet get => cases get <;> exact passes_same rfl
  | trylock => exact passes_same rfl

theorem afterAdd_passes (m : μ) (adding : Adding κ) (stage : AddStage μ) :
    Passes (.add adding m stage) (afterAdd m adding) := by
  cases adding with
  | doGet get died => cases get <;> exact passes_same rfl
  | _ => exact passes_same rfl

theorem add_passes (m : μ) (adding : Adding κ) (stage later : AddStage μ) :
    Passes (.add adding m stage) (.add adding m later) := by
  cases adding with
  | doGet get died => cases get <;> exact passes_same rfl
  | _ => exact passes_same rfl

theorem afterUnlock_passes (m : μ) (wait : Option (κ × UInt32)) (stage : UnlockStage μ) :
    Passes (.unlock m wait stage) (afterUnlock m wait) := by
  cases wait <;> exact passes_same rfl

theorem begin_passes (operation : Operation μ κ) : Passes .idle operation.begin := by
  cases operation <;> exact passes_same rfl

variable [DecidableEq κ]

/-- What a step of a thread means for the conditions. -/
inductive WaitMove (state : State μ κ) (tid : Tid) : Outcome → State μ κ → Prop
  | pass {outcome : Outcome} {after : State μ κ} (unconcerned : (state.phase tid).concerned = false)
      (condition : after.condition = state.condition) (sleepers : after.sleepers = state.sleepers)
      (phases : ∀ thread, Passes (state.phase thread) (after.phase thread)) :
      WaitMove state tid outcome after
  | read {outcome : Outcome} {c : κ} {m : μ} (phase : state.phase tid = .read c m) :
      WaitMove state tid outcome (state.goto tid (.unlock m (some (c, state.condition c)) .check))
  | sleep {outcome : Outcome} {c : κ} {m : μ} {start : UInt32}
      (phase : state.phase tid = .futexWait c m start) (same : state.condition c = start) :
      WaitMove state tid outcome ((state.setSleepers c (state.sleepers c ++ [tid])).goto tid
        (.sleeping c m start))
  | again {outcome : Outcome} {c : κ} {m : μ} {start : UInt32}
      (phase : state.phase tid = .futexWait c m start) (changed : state.condition c ≠ start) :
      WaitMove state tid outcome (state.goto tid (.getSwap (.wait c start) m))
  | retry {outcome : Outcome} {c : κ} {m : μ} {start : UInt32}
      (phase : state.phase tid = .futexWait c m start) : WaitMove state tid outcome state
  | interrupted {c : κ} {m : μ} {start : UInt32}
      (phase : state.phase tid = .sleeping c m start) :
      WaitMove state tid .interrupted ((state.setSleepers c ((state.sleepers c).erase tid)).goto
        tid (.futexWait c m start))
  | spurious {c : κ} {m : μ} {start : UInt32}
      (phase : state.phase tid = .sleeping c m start) :
      WaitMove state tid .spurious ((state.setSleepers c ((state.sleepers c).erase tid)).goto tid
        (.getSwap (.wait c start) m))
  | increment {outcome : Outcome} {c : κ} {broadcast : Bool}
      (phase : state.phase tid = .increment c broadcast) :
      WaitMove state tid outcome
        ({ state with condition := Function.update state.condition c (state.condition c + 1) }.goto
          tid (.wake c broadcast))
  | wake {outcome : Outcome} {c : κ} {broadcast : Bool} {woken : List Tid}
      (phase : state.phase tid = .wake c broadcast) (distinct : woken.Nodup)
      (asleep : woken ⊆ state.sleepers c)
      (count : woken.length = min (wakeCount broadcast) (state.sleepers c).length) :
      WaitMove state tid outcome (state.rouse tid c woken)

section Moves

variable {state after : State μ κ} {tid : Tid} {outcome : Outcome}

theorem WaitMove.goto {memory : State μ κ} {phase target : Phase μ κ}
    (before : state.phase tid = phase) (unconcerned : phase.concerned = false)
    (condition : memory.condition = state.condition) (sleepers : memory.sleepers = state.sleepers)
    (phases : memory.phase = state.phase) (passes : Passes phase target) :
    WaitMove state tid outcome (memory.goto tid target) := by
  refine .pass (by rw [before, unconcerned]) condition sleepers ?_
  intro thread
  by_cases same : thread = tid
  · subst same
    rw [goto_phase, before]
    exact passes
  · rw [goto_phase_other _ same, phases]
    exact .refl _

variable [DecidableEq μ]

/-- What can happen to a sleeper, in a step of its own. -/
theorem advance_sleeping {c : κ} {m : μ} {start : UInt32}
    (phase : state.phase tid = .sleeping c m start)
    (taken : state.advance tid outcome = some after) : WaitMove state tid outcome after := by
  simp only [advance, phase, advanceCondition] at taken
  cases outcome with
  | interrupted =>
    cases taken
    exact .interrupted phase
  | spurious =>
    cases taken
    exact .spurious phase
  | _ => cases taken

theorem advance_waitMove (taken : state.advance tid outcome = some after) :
    WaitMove state tid outcome after := by
  cases advance_moves taken with
  | adder phase => exact .goto phase rfl rfl rfl rfl (afterAdder_passes _ _)
  | @getSwap get _ phase | @getTaken get _ phase | @acquire get _ _ phase | @timedOut get _ phase =>
    exact .goto phase rfl rfl rfl rfl (by cases get <;> exact passes_same rfl)
  | block phase => exact .pass (by rw [phase]; rfl) rfl rfl fun _ => .refl _
  | signal phase => exact .goto phase rfl rfl rfl rfl (afterSignal_passes _ _)
  | deadlock phase | trySwap phase | tryDied phase | close phase | notOwner phase =>
    exact .goto phase rfl rfl rfl rfl (passes_out rfl)
  | tryTaken phase =>
    rcases phase with phase | phase <;> exact .goto phase rfl rfl rfl rfl (passes_out rfl)
  | tryAcquire waiters phase free =>
    exact .goto phase rfl rfl rfl rfl (passes_out rfl)
  | @finishDied call _ phase | @clear call _ phase =>
    refine .goto phase rfl rfl rfl rfl ?_
    cases call with
    | doGet get => cases get <;> exact passes_same rfl
    | trylock => exact passes_same rfl
  | finish phase clean => exact .goto phase rfl rfl rfl rfl (afterFinish_passes _ _ _)
  | @add adding m stage phase =>
    cases stage with
    | back old =>
      exact .goto phase rfl (by cases old <;> rfl) (by cases old <;> rfl) (setBack_phase _ _ _)
        (afterAdd_passes _ _ _)
    | _ => exact .goto phase rfl rfl rfl rfl (add_passes _ _ _ _)
  | check phase | unlockPending phase | unlockNext phase | contended phase =>
    exact .goto phase rfl rfl rfl rfl (passes_same rfl)
  | @unlockBack m wait previous next phase =>
    exact .goto phase rfl (by cases next <;> rfl) (by cases next <;> rfl) (setBack_phase _ _ _)
      (passes_same rfl)
  | release phase =>
    rcases phase with phase | phase <;> exact .goto phase rfl rfl rfl rfl (passes_same rfl)
  | @handOver m wait waiter get waiters phase waiting =>
    refine .pass (by rw [phase]; rfl) rfl rfl ?_
    intro thread
    by_cases same : thread = tid
    · subst same
      rw [goto_phase, phase]
      exact passes_same rfl
    · rw [goto_phase_other _ same]
      by_cases inherits : thread = waiter
      · subst inherits
        rw [goto_phase, waiting]
        cases get <;> exact passes_same rfl
      · rw [goto_phase_other _ inherits]
        exact .refl _
  | unlockClose phase => exact .goto phase rfl rfl rfl rfl (afterUnlock_passes _ _ _)
  | read phase => exact .read phase
  | sleep phase same => exact .sleep phase same
  | again phase changed => exact .again phase changed
  | waitInterrupted phase => exact .retry phase
  | sleepInterrupted phase | spurious phase => exact advance_sleeping phase taken
  | increment phase => exact .increment phase
  | wake phase distinct asleep count => exact .wake phase distinct asleep count

end Moves

/-! ### The sleepers -/

/-- The kernel's lists of sleepers have exactly the threads that are asleep. -/
structure Queued (state : State μ κ) : Prop where
  distinct : ∀ c, (state.sleepers c).Nodup
  asleep : ∀ c tid, tid ∈ state.sleepers c ↔ (state.phase tid).asleep = some c

section Sleepers

variable {μ κ : Type} {state after : State μ κ} {tid : Tid} {phase target : Phase μ κ}

theorem awake_asleep (phase : Phase μ κ) : (awake phase).asleep = none := by
  cases phase <;> rfl

variable (queued : Queued state)
include queued

theorem Queued.congr (sleepers : after.sleepers = state.sleepers)
    (asleep : ∀ thread, (after.phase thread).asleep = (state.phase thread).asleep) :
    Queued after where
  distinct c := by
    rw [sleepers]
    exact queued.distinct c
  asleep c thread := by
    rw [sleepers, asleep]
    exact queued.asleep c thread

theorem Queued.goto {memory : State μ κ}
    (sleepers : memory.sleepers = state.sleepers) (phases : memory.phase = state.phase)
    (before : state.phase tid = phase) (asleep : target.asleep = phase.asleep) :
    Queued (memory.goto tid target) := by
  refine queued.congr sleepers ?_
  intro thread
  by_cases same : thread = tid
  · subst same
    rw [goto_phase, before, asleep]
  · rw [goto_phase_other _ same, phases]

/-- A thread is taken off all lists. -/
theorem Queued.leave
    (erased : ∀ c, after.sleepers c = (state.sleepers c).erase tid)
    (up : (after.phase tid).asleep = none)
    (others : ∀ thread, thread ≠ tid →
      (after.phase thread).asleep = (state.phase thread).asleep) : Queued after where
  distinct c := by
    rw [erased]
    exact (queued.distinct c).erase tid
  asleep c thread := by
    rw [erased, (queued.distinct c).mem_erase_iff]
    by_cases same : thread = tid
    · subst same
      rw [up]
      exact iff_of_false (fun both => both.1 rfl) nofun
    · rw [others thread same, queued.asleep]
      exact and_iff_right same

/-- A broadcast wakes everybody. -/
theorem Queued.rouse_all {c : κ} {woken : List Tid} (distinct : woken.Nodup)
    (asleep : woken ⊆ state.sleepers c)
    (count : woken.length = min (wakeCount true) (state.sleepers c).length)
    (member : tid ∈ state.sleepers c) : tid ∈ woken := by
  have fits : (state.sleepers c).length ≤ 2 ^ 30 := by
    have bound := (queued.distinct c).length_le_card
    rwa [Fintype.card_fin] at bound
  have all : (state.sleepers c).length ≤ woken.length := by
    rw [count]
    refine le_min (fits.trans ?_) le_rfl
    decide
  exact ((List.subperm_of_subset distinct asleep).perm_of_length_le all).mem_iff.mpr member

/-- A thread that is not asleep is on no list. -/
theorem Queued.absent (before : (state.phase tid).asleep = none) (c : κ) :
    tid ∉ state.sleepers c := by
  intro member
  cases before.symm.trans ((queued.asleep c tid).mp member)

variable [DecidableEq κ] {c : κ} {m : μ} {start : UInt32}

theorem Queued.sleep (before : (state.phase tid).asleep = none) :
    Queued ((state.setSleepers c (state.sleepers c ++ [tid])).goto tid (.sleeping c m start)) where
  distinct := by
    apply (forall_update_iff state.sleepers fun _ sleepers => sleepers.Nodup).mpr
    refine ⟨?_, fun other _ => queued.distinct other⟩
    rw [← List.concat_eq_append]
    exact .concat (queued.absent before c) (queued.distinct c)
  asleep other thread := by
    show thread ∈ Function.update state.sleepers c _ other ↔ _
    by_cases mine : thread = tid
    · subst mine
      rw [goto_phase]
      by_cases same : other = c
      · subst same
        rw [update_self]
        exact iff_of_true (List.mem_append_right _ List.mem_cons_self) rfl
      · rw [update_of_ne same]
        refine iff_of_false (queued.absent before other) ?_
        rintro ⟨⟩
        exact same rfl
    · rw [goto_phase_other _ mine]
      show _ ↔ (state.phase thread).asleep = some other
      rw [← queued.asleep]
      by_cases same : other = c
      · subst same
        rw [update_self, List.mem_append, List.mem_singleton]
        exact or_iff_left mine
      · rw [update_of_ne same]

/-- A sleeper leaves the only list that it is on. -/
theorem Queued.erase (before : (state.phase tid).asleep = some c)
    (up : target.asleep = none) :
    Queued ((state.setSleepers c ((state.sleepers c).erase tid)).goto tid target) := by
  refine queued.leave ?_ (by rw [goto_phase, up]) fun thread different => by
    rw [goto_phase_other _ different]
    rfl
  intro other
  show Function.update _ c _ other = _
  by_cases same : other = c
  · rw [same, update_self]
  · rw [update_of_ne same, List.erase_of_not_mem]
    intro member
    exact same (Option.some.inj (((queued.asleep other tid).mp member).symm.trans before))

theorem Queued.rouse {woken : List Tid}
    (before : (state.phase tid).asleep = none) (asleep : woken ⊆ state.sleepers c) :
    Queued (state.rouse tid c woken) where
  distinct := (forall_update_iff _ _).mpr
    ⟨(queued.distinct c).filter _, fun other _ => queued.distinct other⟩
  asleep other thread := by
    show thread ∈ Function.update state.sleepers c _ other ↔ _
    have still : thread ∈ Function.update state.sleepers c
        ((state.sleepers c).filter fun sleeper => sleeper ∉ woken) other ↔
        thread ∉ woken ∧ thread ∈ state.sleepers other := by
      by_cases same : other = c
      · subst same
        rw [update_self, List.mem_filter, decide_eq_true_iff, and_comm]
      · rw [update_of_ne same]
        refine (and_iff_right_of_imp ?_).symm
        intro member chosen
        have elsewhere := (queued.asleep c thread).mp (asleep chosen)
        exact same (Option.some.inj (((queued.asleep other thread).mp member).symm.trans elsewhere))
    rw [still, queued.asleep]
    by_cases mine : thread = tid
    · subst mine
      rw [State.rouse, goto_phase, before]
      exact iff_of_false (fun both => by cases both.2) (by rintro ⟨⟩)
    · rw [State.rouse, goto_phase_other _ mine]
      dsimp only
      split
      · next chosen =>
        rw [awake_asleep]
        exact iff_of_false (fun both => both.1 chosen) (by rintro ⟨⟩)
      · next left => exact and_iff_right left

end Sleepers

/-! ### How waits end -/

/-- A wait ends with the mutex locked. -/
def Phase.Relocked : Phase μ κ → Prop
  | .close (.doGet (.wait _ _)) _ result => ∃ died, result = .locked died
  | _ => True

section Ends

variable [DecidableEq μ] {state after : State μ κ} {tid : Tid}

theorem Move.relocked (move : Move state tid after) : (after.phase tid).Relocked := by
  cases move with
  | @adder call m phase =>
    rw [goto_phase]
    cases call with
    | doGet get => cases get <;> trivial
    | trylock => trivial
  | @signal get m phase =>
    rw [goto_phase]
    cases get with
    | get signalsFail timeout => cases signalsFail <;> trivial
    | wait c start => trivial
  | @timedOut get m phase timeout =>
    rw [goto_phase]
    cases get with
    | get signalsFail limited => trivial
    | wait c start => cases timeout
  | @finish call _ _ | @clear call =>
    rw [goto_phase]
    cases call <;> trivial
  | @add adding m stage phase =>
    cases stage with
    | back old =>
      rw [advanceAdd, goto_phase]
      cases adding with
      | doGet get died =>
        cases get with
        | get signalsFail timeout => trivial
        | wait c start => exact ⟨died, rfl⟩
      | trySwap => trivial
      | trylockPi => trivial
    | _ =>
      rw [advanceAdd, goto_phase]
      trivial
  | @unlockClose m wait phase =>
    rw [goto_phase]
    cases wait <;> trivial
  | block phase =>
    show (state.phase tid).Relocked
    rw [phase]
    trivial
  | waitInterrupted phase =>
    rw [phase]
    trivial
  | wake phase distinct asleep count =>
    rw [rouse, goto_phase]
    trivial
  | deadlock phase own | notOwner phase =>
    rw [abort, goto_phase]
    trivial
  | _ =>
    rw [goto_phase]
    trivial

theorem Step.relocked {label : Tid × Event μ κ} (step : Step state label after)
    (all : ∀ tid, (state.phase tid).Relocked) (tid : Tid) : (after.phase tid).Relocked := by
  obtain ⟨mover, event⟩ := label
  cases step_moves step with
  | call operation idle =>
    by_cases same : tid = mover
    · subst same
      rw [goto_phase]
      cases operation <;> trivial
    · rw [goto_phase_other _ same]
      exact all tid
  | advance move =>
    by_cases same : tid = mover
    · subst same
      exact move.relocked
    · rcases move.phase_other same with kept | ⟨_, _, _, finishes⟩ | ⟨_, _, _, _, woken⟩
      · rw [kept]
        exact all tid
      · rw [finishes]
        trivial
      · rw [woken]
        trivial
  | die live visits =>
    by_cases same : tid = mover
    · subst same
      rw [State.exit, goto_phase]
      trivial
    · rw [State.exit, goto_phase_other _ same]
      exact all tid

end Ends

end Miranda.Sync
