import Miranda.Sync.RobustList

/-!
# What a step of a thread does to the futexes

As far as owners and `FUTEX_OWNER_DIED` go there are five kinds of steps: a thread gets
a mutex, goes on with one that it has got, comes back with it, gives one back, or does
something else. `FutexMove` says for each of them where the thread is in the code before
and after it and what happens to the futex.
-/

namespace Miranda.Sync

open State

variable {μ κ : Type}

/-! ### Places in the code -/

/-- The mutex that a thread has locked, as long as the call has not returned. -/
def Phase.acquired : Phase μ κ → Option μ
  | .finish _ m | .clear _ m | .add _ m _ | .close _ m (.locked _) => some m
  | _ => none

/-- The mutex that the next step comes back with. -/
def Phase.returns : Phase μ κ → Option μ
  | .close _ m (.locked _) => some m
  | _ => none

/-- How far a thread is with `FUTEX_OWNER_DIED` of a mutex. -/
inductive Standing where
  /-- It has nothing to do with it. -/
  | none
  /-- It has not looked at the flag yet. -/
  | unsettled
  /-- It has found the flag set. -/
  | clearing
  /-- It knows what it is going to return. -/
  | settled (died : Bool)
  deriving DecidableEq

def Phase.stage : Phase μ κ → Standing
  | .finish _ _ | .add .trylockPi _ _ => .unsettled
  | .clear _ _ => .clearing
  | .add (.doGet _ died) _ _ => .settled died
  | .add .trySwap _ _ => .settled false
  | .close _ _ (.locked died) => .settled died
  | _ => .none

/-- What the flag is, for a thread that owns the mutex. -/
def Settles (died orphaned : Bool) : Standing → Prop
  | .none => died = false ∧ orphaned = false
  | .unsettled => died = orphaned
  | .clearing => died = true ∧ orphaned = true
  | .settled result => died = false ∧ result = orphaned

section Places

variable {phase target : Phase μ κ} {m : μ}

theorem afterFinish_acquired (m : μ) (died : Bool) (call : Call κ) :
    (afterFinish m died call).acquired = some m := by
  cases call <;> rfl

theorem afterFinish_stage (m : μ) (died : Bool) (call : Call κ) :
    (afterFinish m died call).stage = .settled died := by
  cases call <;> rfl

theorem returns_of_acquired {phase : Phase μ κ} (nothing : phase.acquired = none) :
    phase.returns = none := by
  unfold Phase.returns
  split
  · cases nothing
  · rfl

theorem ne_dead_of_acquired {phase : Phase μ κ} (acquired : phase.acquired = some m) :
    phase ≠ .dead := by
  rintro rfl
  cases acquired

/-- What other threads do to a thread without handing a mutex over to it. -/
def Stays (phase target : Phase μ κ) : Prop :=
  target = phase ∨
    ∃ c m start, phase = .sleeping c m start ∧ target = .getSwap (.wait c start) m

theorem Stays.acquired (stays : Stays phase target) : target.acquired = phase.acquired := by
  rcases stays with rfl | ⟨_, _, _, rfl, rfl⟩ <;> rfl

theorem Stays.live (stays : Stays phase target) (live : phase ≠ .dead) : target ≠ .dead := by
  rcases stays with rfl | ⟨_, _, _, rfl, rfl⟩
  · exact live
  · exact nofun

theorem Stays.of_live (stays : Stays phase target) (live : target ≠ .dead) : phase ≠ .dead := by
  rcases stays with rfl | ⟨_, _, _, rfl, rfl⟩
  · exact live
  · exact nofun

theorem stays_awake (phase : Phase μ κ) : Stays phase (awake phase) := by
  cases phase with
  | sleeping c m start => exact .inr ⟨c, m, start, rfl, rfl⟩
  | _ => exact .inl rfl

end Places

/-- Threads own what they have locked and not returned with yet. -/
def AcquiredOwned (state : State μ κ) : Prop :=
  ∀ tid m, (state.phase tid).acquired = some m → Owns state tid m

/-- Nobody gets or loses a mutex and its flag stays. -/
def Alike (state after : State μ κ) (m : μ) : Prop :=
  (after.futex m).owner = (state.futex m).owner ∧ (after.futex m).died = (state.futex m).died

section Words

variable {state after : State μ κ} {tid other : Tid} {m : μ}

theorem State.Fresh.acquiredOwned (fresh : state.Fresh) : AcquiredOwned state := by
  intro tid m got
  rw [fresh.phase] at got
  cases got

theorem alike_of_futex (same : after.futex = state.futex) (m : μ) : Alike state after m := by
  rw [Alike, same]
  exact ⟨rfl, rfl⟩

theorem Alike.owns (alike : Alike state after m) : Owns after tid m ↔ Owns state tid m := by
  rw [Owns, Owns, alike.1]

theorem stays_goto (same : after.phase = state.phase) (target : Phase μ κ) (other : Tid)
    (different : other ≠ tid) :
    Stays (state.phase other) ((after.goto tid target).phase other) := by
  rw [goto_phase_other _ different, same]
  exact .inl rfl

end Words

variable [DecidableEq μ]

/-- Whether a thread that comes to a place holds a mutex. -/
def Phase.holding (found : μ) (held : Bool) : Phase μ κ → Bool
  | .add _ m .next | .finish (.doGet _) m => held || found = m
  | .unlock m _ .close => held && found ≠ m
  | .dead => false
  | _ => held

/-- A place where no mutex has been got or is given back. -/
structure Aside (phase : Phase μ κ) : Prop where
  acquired : phase.acquired = none
  holding : ∀ m held, phase.holding m held = held
  live : phase ≠ .dead

theorem afterAdder_aside (m : μ) (call : Call κ) : Aside (afterAdder m call) := by
  cases call with
  | doGet get => cases get <;> exact ⟨rfl, fun _ _ => rfl, nofun⟩
  | trylock => exact ⟨rfl, fun _ _ => rfl, nofun⟩

theorem afterSignal_aside (get : Get κ) (m : μ) : Aside (afterSignal get m) := by
  unfold afterSignal
  split <;> exact ⟨rfl, fun _ _ => rfl, nofun⟩

theorem afterUnlock_aside (m : μ) (wait : Option (κ × UInt32)) : Aside (afterUnlock m wait) := by
  cases wait <;> exact ⟨rfl, fun _ _ => rfl, nofun⟩

theorem begin_aside (operation : Operation μ κ) : Aside operation.begin := by
  cases operation <;> exact ⟨rfl, fun _ _ => rfl, nofun⟩

/-! ### Steps on the futexes -/

/-- What a step of a thread does to the futexes. -/
inductive FutexMove (state : State μ κ) (tid : Tid) (after : State μ κ) : Prop
  | keep (before : (state.phase tid).acquired = none) (words : ∀ m, Alike state after m)
      (target : Aside (after.phase tid))
      (others : ∀ other, other ≠ tid → Stays (state.phase other) (after.phase other))
  | acquire {m : μ} (before : (state.phase tid).acquired = none)
      (free : (state.futex m).owner = none) (words : ∀ found, found ≠ m → Alike state after found)
      (owner : (after.futex m).owner = some tid)
      (died : (after.futex m).died = (state.futex m).died)
      (target : (after.phase tid).acquired = some m)
      (stage : ∀ orphaned, (after.futex m).died = orphaned →
        Settles (after.futex m).died orphaned (after.phase tid).stage)
      (holding : ∀ found held, (after.phase tid).holding found held = (held || found = m))
      (others : ∀ other, other ≠ tid → Stays (state.phase other) (after.phase other))
  | settle {m : μ} (before : (state.phase tid).acquired = some m)
      (returns : (state.phase tid).returns = none)
      (words : ∀ found, found ≠ m → Alike state after found)
      (owner : (after.futex m).owner = (state.futex m).owner)
      (target : (after.phase tid).acquired = some m)
      (stage : ∀ orphaned, Settles (state.futex m).died orphaned (state.phase tid).stage →
        Settles (after.futex m).died orphaned (after.phase tid).stage)
      (holding : ∀ found held, (found = m → held = true) →
        (after.phase tid).holding found held = held)
      (others : ∀ other, other ≠ tid → Stays (state.phase other) (after.phase other))
  | comeBack {m : μ} {died : Bool} (before : (state.phase tid).acquired = some m)
      (returns : (state.phase tid).returns = some m)
      (stage : (state.phase tid).stage = .settled died) (words : ∀ m, Alike state after m)
      (target : Aside (after.phase tid))
      (others : ∀ other, other ≠ tid → Stays (state.phase other) (after.phase other))
  | release {m : μ} {heir : Option Tid} (before : (state.phase tid).acquired = none)
      (own : Owns state tid m) (words : ∀ found, found ≠ m → Alike state after found)
      (owner : (after.futex m).owner = heir) (died : (after.futex m).died = false)
      (target : (after.phase tid).acquired = none)
      (holding : ∀ found held, (after.phase tid).holding found held = (held && found ≠ m))
      (live : after.phase tid ≠ .dead)
      (heirs : ∀ other, heir = some other → other ≠ tid ∧
        ∃ get, state.phase other = .lockPi get m ∧ after.phase other = .finish (.doGet get) m)
      (others : ∀ other, other ≠ tid → heir ≠ some other →
        Stays (state.phase other) (after.phase other))

section Steps

variable {state after : State μ κ} {tid other : Tid} {m : μ} {word : Word}

theorem setFutex_self (state : State μ κ) (m : μ) (word : Word) :
    (state.setFutex m word).futex m = word := by
  exact Function.update_self m word state.futex

theorem alike_of_update (stored : after.futex = Function.update state.futex m word) (found : μ)
    (different : found ≠ m) : Alike state after found := by
  rw [Alike, stored, Function.update_of_ne different]
  exact ⟨rfl, rfl⟩

variable {phase target : Phase μ κ} {held : Bool} {found : μ} {wait : Option (κ × UInt32)}

/-- A thread that has got no mutex does something that is not about getting one. -/
theorem FutexMove.goto (before : state.phase tid = phase) (nothing : phase.acquired = none)
    (futex : after.futex = state.futex) (same : after.phase = state.phase) (aside : Aside target) :
    FutexMove state tid (after.goto tid target) := by
  refine .keep (by rw [before, nothing]) (alike_of_futex futex) ?_ (stays_goto same target)
  rw [goto_phase]
  exact aside

/-- A thread gets a mutex. -/
theorem FutexMove.of_take (before : state.phase tid = phase) (nothing : phase.acquired = none)
    (free : (state.futex m).owner = none) (mine : word.owner = some tid)
    (died : word.died = (state.futex m).died) (acquired : target.acquired = some m)
    (stage : ∀ orphaned, word.died = orphaned → Settles word.died orphaned target.stage)
    (holding : ∀ found held, target.holding found held = (held || found = m)) :
    FutexMove state tid ((state.setFutex m word).goto tid target) := by
  have stored : ((state.setFutex m word).goto tid target).futex m = word := setFutex_self _ _ _
  refine .acquire (m := m) (by rw [before, nothing]) free (alike_of_update rfl) ?_ ?_ ?_ ?_ ?_
    (stays_goto rfl target)
  · rw [stored, mine]
  · rw [stored, died]
  · rw [goto_phase, acquired]
  · rw [stored, goto_phase]
    exact stage
  · rw [goto_phase]
    exact holding

/-- A thread that has got a mutex goes on with it. -/
theorem FutexMove.of_settle (before : state.phase tid = phase) (acquired : phase.acquired = some m)
    (returns : phase.returns = none) (words : ∀ found, found ≠ m → Alike state after found)
    (owner : (after.futex m).owner = (state.futex m).owner) (same : after.phase = state.phase)
    (kept : target.acquired = some m)
    (stage : ∀ orphaned, Settles (state.futex m).died orphaned phase.stage →
      Settles (after.futex m).died orphaned target.stage)
    (holding : ∀ found held, (found = m → held = true) → target.holding found held = held) :
    FutexMove state tid (after.goto tid target) := by
  refine .settle (m := m) (by rw [before, acquired]) (by rw [before, returns]) words owner ?_ ?_ ?_
    (stays_goto same target)
  · rw [goto_phase, kept]
  · rw [goto_phase, before]
    exact stage
  · rw [goto_phase]
    exact holding

theorem holding_or (inside : found = m → held = true) :
    (held || decide (found = m)) = held := by
  by_cases same : found = m
  · rw [inside same, Bool.true_or]
  · rw [decide_eq_false same, Bool.or_false]

theorem afterFinish_holding {died : Bool} {call : Call κ} (inside : found = m → held = true) :
    (afterFinish m died call).holding found held = held := by
  cases call with
  | doGet get => exact holding_or inside
  | trylock => rfl

theorem advanceAdd_futexMove {adding : Adding κ} {stage : AddStage μ}
    (phase : state.phase tid = .add adding m stage) :
    FutexMove state tid (state.advanceAdd tid adding m stage) := by
  cases stage with
  | back old =>
    have futex : (state.setBack old (.mutex m)).futex = state.futex := by cases old <;> rfl
    have alike := alike_of_futex futex
    refine .of_settle phase rfl rfl (fun found _ => alike found) (alike m).1 (setBack_phase _ _ _)
      ?_ ?_ ?_
    · cases adding <;> rfl
    · intro orphaned settles
      rw [(alike m).2]
      cases adding <;> exact settles
    · intro found held _
      cases adding <;> rfl
  | _ =>
    refine .of_settle phase rfl rfl (fun found _ => alike_of_futex rfl found) rfl rfl rfl ?_
      fun _ _ _ => rfl
    intro orphaned settles
    cases adding <;> exact settles

variable {list : List μ}

/-- A thread lets a mutex go that nobody waits for. -/
theorem release_futexMove
    (phase : state.phase tid = .unlock m wait .release ∨ state.phase tid = .unlock m wait .unlockPi)
    (consistent : Consistent state tid (state.phase tid) list) :
    FutexMove state tid ((state.setFutex m .free).goto tid (.unlock m wait .close)) := by
  have before : (state.phase tid).acquired = none ∧ (state.phase tid).loose = some m := by
    rcases phase with phase | phase <;> rw [phase] <;> exact ⟨rfl, rfl⟩
  have stored : ((state.setFutex m .free).goto tid (.unlock m wait .close)).futex m = .free :=
    setFutex_self _ _ _
  have owner := congrArg Word.owner stored
  refine .release before.1 ((consistent.owned m).mpr (.inr before.2)) (alike_of_update rfl)
    owner (by rw [stored]) ?_ ?_ ?_ nofun fun other different _ =>
      stays_goto rfl _ other different
  all_goals rw [goto_phase]
  · rfl
  · exact fun _ _ => rfl
  · exact nofun

/-- A thread hands a mutex over to one that waits for it. -/
theorem handOver_futexMove {waiter : Tid} {get : Get κ} (waiters : Bool)
    (phase : state.phase tid = .unlock m wait .unlockPi)
    (waiting : state.phase waiter = .lockPi get m)
    (consistent : Consistent state tid (state.phase tid) list) :
    FutexMove state tid (((state.setFutex m { owner := some waiter, waiters }).goto waiter
      (.finish (.doGet get) m)).goto tid (.unlock m wait .close)) := by
  have apart : waiter ≠ tid := by
    rintro rfl
    cases phase.symm.trans waiting
  have own : Owns state tid m := by
    refine (consistent.owned m).mpr (.inr ?_)
    rw [phase]
    rfl
  have stored : (((state.setFutex m _).goto waiter
      (.finish (.doGet get) m)).goto tid (.unlock m wait .close)).futex m =
      { owner := some waiter, waiters } := setFutex_self _ _ _
  refine .release (by rw [phase]; rfl) own (alike_of_update rfl) (by rw [stored])
    (by rw [stored]) ?_ ?_ ?_ ?_ ?_
  · rw [goto_phase]
    rfl
  · rw [goto_phase]
    exact fun _ _ => rfl
  · rw [goto_phase]
    exact nofun
  · rintro _ ⟨⟩
    rw [goto_phase_other _ apart, goto_phase]
    exact ⟨apart, get, waiting, rfl⟩
  · intro other different stranger
    rw [goto_phase_other _ different]
    exact stays_goto rfl _ other fun same => stranger (congrArg some same.symm)

variable [DecidableEq κ]

theorem Move.futexMove (move : Move state tid after)
    (consistent : Consistent state tid (state.phase tid) list) : FutexMove state tid after := by
  cases move with
  | adder phase => exact .goto phase rfl rfl rfl (afterAdder_aside _ _)
  | getSwap phase free | trySwap phase free =>
    refine .of_take phase rfl (by rw [free]) rfl (by rw [free]) rfl ?_ fun _ _ => rfl
    rintro _ rfl
    exact ⟨rfl, rfl⟩
  | getTaken phase | timedOut phase | deadlock phase | tryDied phase | check phase | notOwner phase
  | unlockPending phase | unlockNext phase | contended phase | read phase | sleep phase
  | again phase | sleepInterrupted phase | spurious phase | increment phase =>
    exact .goto phase rfl rfl rfl ⟨rfl, fun _ _ => rfl, nofun⟩
  | acquire waiters phase free | tryAcquire waiters phase free =>
    exact .of_take phase rfl free rfl rfl rfl (fun _ same => same) fun _ _ => rfl
  | @block get m phase =>
    refine .keep (by rw [phase]; rfl) ?_ ?_ fun _ _ => .inl rfl
    · intro found
      by_cases same : found = m
      · subst same
        rw [Alike, setFutex_self]
        exact ⟨rfl, rfl⟩
      · exact alike_of_update rfl found same
    · show Aside (state.phase tid)
      rw [phase]
      exact ⟨rfl, fun _ _ => rfl, nofun⟩
  | signal phase => exact .goto phase rfl rfl rfl (afterSignal_aside _ _)
  | tryTaken phase =>
    rcases phase with phase | phase <;>
      exact .goto phase rfl rfl rfl ⟨rfl, fun _ _ => rfl, nofun⟩
  | @finishDied call m phase died =>
    refine .of_settle phase rfl rfl (fun found _ => alike_of_futex rfl found) rfl rfl rfl ?_
      fun _ _ _ => rfl
    intro orphaned same
    exact ⟨died, same.symm.trans died⟩
  | @finish call m phase clean =>
    refine .of_settle phase rfl rfl (fun found _ => alike_of_futex rfl found) rfl rfl
      (afterFinish_acquired _ _ _) ?_ fun _ _ => afterFinish_holding
    intro orphaned same
    rw [afterFinish_stage]
    exact ⟨clean, clean.symm.trans same⟩
  | @clear call m phase =>
    refine .of_settle phase rfl rfl (alike_of_update rfl) (by rw [setFutex_self]) rfl
      (afterFinish_acquired _ _ _) ?_ fun _ _ => afterFinish_holding
    intro orphaned settles
    rw [afterFinish_stage, setFutex_self]
    exact ⟨rfl, settles.2.symm⟩
  | @close call m result phase =>
    cases result with
    | locked died =>
      have stage : (state.phase tid).stage = .settled died := by
        rw [phase]
        rfl
      refine .comeBack (m := m) (by rw [phase]; rfl) (by rw [phase]; rfl) stage (alike_of_futex rfl)
        ?_ (stays_goto rfl _)
      rw [goto_phase]
      exact ⟨rfl, fun _ _ => rfl, nofun⟩
    | _ => exact .goto phase rfl rfl rfl ⟨rfl, fun _ _ => rfl, nofun⟩
  | add phase => exact advanceAdd_futexMove phase
  | @unlockBack m wait previous next phase =>
    exact .goto phase rfl (by cases next <;> rfl) (setBack_phase _ _ _)
      ⟨rfl, fun _ _ => rfl, nofun⟩
  | release phase => exact release_futexMove phase consistent
  | handOver waiters phase waiting => exact handOver_futexMove waiters phase waiting consistent
  | unlockClose phase => exact .goto phase rfl rfl rfl (afterUnlock_aside _ _)
  | waitInterrupted phase =>
    refine .keep (by rw [phase]; rfl) (alike_of_futex rfl) ?_ fun _ _ => .inl rfl
    rw [phase]
    exact ⟨rfl, fun _ _ => rfl, nofun⟩
  | @wake c broadcast woken phase distinct asleep count =>
    refine .keep (by rw [phase]; rfl) (alike_of_futex rfl) ?_ ?_
    · rw [rouse, goto_phase]
      exact ⟨rfl, fun _ _ => rfl, nofun⟩
    · intro other different
      rw [rouse, goto_phase_other _ different]
      dsimp only
      split
      · exact stays_awake _
      · exact .inl rfl

end Steps

/-! ### What a step means for owners and holders -/

section Holders

variable {state after : State μ κ} {tid other : Tid} {m : μ}

section

variable (move : FutexMove state tid after)
include move

theorem FutexMove.live : after.phase tid ≠ .dead := by
  cases move with
  | keep before words target others => exact target.live
  | acquire before free words owner died target stage holding others =>
    exact ne_dead_of_acquired target
  | settle before returns words owner target stage holding others =>
    exact ne_dead_of_acquired target
  | comeBack before returns stage words target others => exact target.live
  | release before own words owner died target holding live heirs others => exact live

/-- What a step means for a thread that does not take it: nothing, or that a mutex is
handed over to it. -/
theorem FutexMove.bystander (different : other ≠ tid) :
    (Stays (state.phase other) (after.phase other) ∧
        ∀ m, Owns after other m ↔ Owns state other m) ∨
      ∃ get m, state.phase other = .lockPi get m ∧ after.phase other = .finish (.doGet get) m ∧
        ¬ Owns state other m ∧
        ∀ found, Owns after other found ↔ Owns state other found ∨ found = m := by
  cases move with
  | keep before words target others | comeBack before returns stage words target others =>
    exact .inl ⟨others other different, fun m => (words m).owns⟩
  | @acquire m before free words owner died target stage holding others =>
    refine .inl ⟨others other different, ?_⟩
    intro found
    by_cases same : found = m
    · subst same
      exact iff_of_false (fun theirs => different (theirs.unique owner)) (not_owns_of_free free)
    · exact (words found same).owns
  | @settle m before returns words owner target stage holding others =>
    refine .inl ⟨others other different, ?_⟩
    intro found
    by_cases same : found = m
    · rw [Owns, Owns, same, owner]
    · exact (words found same).owns
  | @release m heir before own words owner died target holding live heirs others =>
    have lost : ¬ Owns state other m := fun theirs => different (theirs.unique own)
    by_cases inherits : heir = some other
    · obtain ⟨_, get, waiting, finishes⟩ := heirs other inherits
      refine .inr ⟨get, m, waiting, finishes, lost, ?_⟩
      intro found
      by_cases same : found = m
      · subst same
        exact iff_of_true (owner.trans inherits) (.inr rfl)
      · rw [(words found same).owns, or_iff_left same]
    · refine .inl ⟨others other different inherits, ?_⟩
      intro found
      by_cases same : found = m
      · subst same
        exact iff_of_false (fun theirs => inherits (owner.symm.trans theirs)) lost
      · exact (words found same).owns

theorem FutexMove.acquired (acquired : AcquiredOwned state) :
    AcquiredOwned after := by
  intro other m got
  by_cases same : other = tid
  · subst same
    cases move with
    | keep before words target others | comeBack before returns stage words target others =>
      cases target.acquired.symm.trans got
    | acquire before free words owner died target stage holding others =>
      cases target.symm.trans got
      exact owner
    | settle before returns words owner target stage holding others =>
      cases target.symm.trans got
      exact owner.trans (acquired other m before)
    | release before own words owner died target holding live heirs others =>
      cases target.symm.trans got
  · rcases move.bystander same with ⟨stays, owns⟩ | ⟨get, found, _, finishes, _, owns⟩
    · exact (owns m).mpr (acquired other m (stays.acquired.symm.trans got))
    · rw [finishes] at got
      cases got
      exact (owns m).mpr (.inr rfl)

/-- The thread that takes a step holds what it owns. -/
theorem FutexMove.holding (acquired : AcquiredOwned state) {held : Bool}
    (history : held = true ↔ Owns state tid m) :
    (after.phase tid).holding m held = true ↔ Owns after tid m := by
  cases move with
  | keep before words target others | comeBack before returns stage words target others =>
    rw [target.holding, history, (words m).owns]
  | @acquire found before free words owner died target stage holding others =>
    rw [holding, Bool.or_eq_true, decide_eq_true_iff, history]
    by_cases same : m = found
    · subst same
      exact iff_of_true (.inr rfl) owner
    · rw [or_iff_left same, (words m same).owns]
  | @settle found before returns words owner target stage holding others =>
    have inside : m = found → held = true := by
      rintro rfl
      exact history.mpr (acquired tid m before)
    rw [holding m held inside, history]
    by_cases same : m = found
    · rw [Owns, Owns, same, owner]
    · exact (words m same).owns.symm
  | @release found heir before own words owner died target holding live heirs others =>
    rw [holding, Bool.and_eq_true, decide_eq_true_iff, history]
    by_cases same : m = found
    · subst same
      refine iff_of_false (fun kept => kept.2 rfl) ?_
      intro mine
      exact (heirs tid (owner.symm.trans mine)).1 rfl
    · rw [and_iff_left same, (words m same).owns]

end

theorem exit_acquired {list : List μ} (acquired : AcquiredOwned state) :
    AcquiredOwned (state.exit tid list) := by
  intro other m got
  by_cases same : other = tid
  · subst same
    rw [State.exit, goto_phase] at got
    cases got
  · rw [State.exit, goto_phase_other _ same] at got
    exact ((exit_spares same).owner m).mpr (acquired other m got)

variable [DecidableEq κ]

/-- Every step but a death is one on the futexes. -/
theorem SystemMove.futexMove {event : Event μ κ} (move : SystemMove state tid event after)
    (consistent : AllConsistent state) (alive : ∀ list, event ≠ .die list) :
    state.phase tid ≠ .dead ∧ FutexMove state tid after := by
  cases move with
  | call operation idle =>
    refine ⟨?_, .goto idle rfl rfl rfl (begin_aside operation)⟩
    rw [idle]
    exact nofun
  | advance move =>
    obtain ⟨list, own⟩ := consistent tid move.live
    exact ⟨move.live, move.futexMove own⟩
  | die live visits => exact absurd rfl (alive _)

theorem Step.acquiredOwned {label : Tid × Event μ κ} (step : Step state label after)
    (consistent : AllConsistent state) (acquired : AcquiredOwned state) :
    AcquiredOwned after := by
  obtain ⟨mover, event⟩ := label
  have move := step_moves step
  cases event with
  | die list =>
    cases move
    exact exit_acquired acquired
  | _ => exact (move.futexMove consistent nofun).2.acquired acquired

end Holders

end Miranda.Sync
