import Miranda.Sync.Model

/-!
# What a step of a thread can do

`Move` lists the steps of a thread with their guards and effects. All results about
runs are read off it and never look into the step functions again.
-/

namespace Miranda.Sync

open State

variable {μ κ : Type} [DecidableEq μ] [DecidableEq κ]

inductive Move (state : State μ κ) (tid : Tid) : State μ κ → Prop
  | adder {call : Call κ} {m : μ} (phase : state.phase tid = .adder call m) :
      Move state tid ((state.setPending tid (some m)).goto tid (afterAdder m call))
  | getSwap {get : Get κ} {m : μ} (phase : state.phase tid = .getSwap get m)
      (free : state.futex m = .free) :
      Move state tid ((state.setFutex m { owner := some tid }).goto tid
        (.add (.doGet get false) m .next))
  | getTaken {get : Get κ} {m : μ} (phase : state.phase tid = .getSwap get m) :
      Move state tid (state.goto tid (.lockPi get m))
  | acquire {get : Get κ} {m : μ} (waiters : Bool) (phase : state.phase tid = .lockPi get m)
      (free : (state.futex m).owner = none) :
      Move state tid
        ((state.setFutex m { state.futex m with owner := some tid, waiters }).goto tid
          (.finish (.doGet get) m))
  | block {get : Get κ} {m : μ} (phase : state.phase tid = .lockPi get m) :
      Move state tid (state.setFutex m { state.futex m with waiters := true })
  | signal {get : Get κ} {m : μ} (phase : state.phase tid = .lockPi get m) :
      Move state tid (state.goto tid (afterSignal get m))
  | timedOut {get : Get κ} {m : μ} (phase : state.phase tid = .lockPi get m)
      (timeout : get.timeout = true) :
      Move state tid (state.goto tid (.close (.doGet get) m .timedOut))
  | deadlock {get : Get κ} {m : μ} (phase : state.phase tid = .lockPi get m)
      (own : (state.futex m).owner = some tid) : Move state tid (state.abort tid)
  | trySwap {m : μ} (phase : state.phase tid = .trySwap m) (free : state.futex m = .free) :
      Move state tid ((state.setFutex m { owner := some tid }).goto tid
        (.add .trySwap m .next))
  | tryDied {m : μ} (phase : state.phase tid = .trySwap m) :
      Move state tid (state.goto tid (.trylockPi m))
  | tryTaken {m : μ} (phase : state.phase tid = .trySwap m ∨ state.phase tid = .trylockPi m) :
      Move state tid (state.goto tid (.close .trylock m .busy))
  | tryAcquire {m : μ} (waiters : Bool) (phase : state.phase tid = .trylockPi m)
      (free : (state.futex m).owner = none) :
      Move state tid
        ((state.setFutex m { state.futex m with owner := some tid, waiters }).goto tid
          (.add .trylockPi m .next))
  | finishDied {call : Call κ} {m : μ} (phase : state.phase tid = .finish call m)
      (died : (state.futex m).died = true) : Move state tid (state.goto tid (.clear call m))
  | finish {call : Call κ} {m : μ} (phase : state.phase tid = .finish call m)
      (clean : (state.futex m).died = false) :
      Move state tid (state.goto tid (afterFinish m false call))
  | clear {call : Call κ} {m : μ} (phase : state.phase tid = .clear call m) :
      Move state tid ((state.setFutex m { state.futex m with died := false }).goto tid
        (afterFinish m true call))
  | close {call : Call κ} {m : μ} {result : Result}
      (phase : state.phase tid = .close call m result) :
      Move state tid ((state.setPending tid none).goto tid .idle)
  | add {adding : Adding κ} {m : μ} {stage : AddStage μ}
      (phase : state.phase tid = .add adding m stage) :
      Move state tid (state.advanceAdd tid adding m stage)
  | check {m : μ} {wait : Option (κ × UInt32)} (phase : state.phase tid = .unlock m wait .check)
      (own : (state.futex m).owner = some tid) :
      Move state tid (state.goto tid (.unlock m wait .pending))
  | notOwner {m : μ} {wait : Option (κ × UInt32)}
      (phase : state.phase tid = .unlock m wait .check) : Move state tid (state.abort tid)
  | unlockPending {m : μ} {wait : Option (κ × UInt32)}
      (phase : state.phase tid = .unlock m wait .pending) :
      Move state tid ((state.setPending tid (some m)).goto tid (.unlock m wait .next))
  | unlockNext {m : μ} {wait : Option (κ × UInt32)}
      (phase : state.phase tid = .unlock m wait .next) :
      Move state tid
        ((state.setNext (state.previous (.mutex m)) (state.next (.mutex m))).goto tid
          (.unlock m wait (.back (state.previous (.mutex m)) (state.next (.mutex m)))))
  | unlockBack {m : μ} {wait : Option (κ × UInt32)} {previous next : Node μ}
      (phase : state.phase tid = .unlock m wait (.back previous next)) :
      Move state tid ((state.setBack next previous).goto tid (.unlock m wait .release))
  | release {m : μ} {wait : Option (κ × UInt32)}
      (phase : state.phase tid = .unlock m wait .release ∨
        state.phase tid = .unlock m wait .unlockPi) :
      Move state tid ((state.setFutex m .free).goto tid (.unlock m wait .close))
  | contended {m : μ} {wait : Option (κ × UInt32)}
      (phase : state.phase tid = .unlock m wait .release) :
      Move state tid (state.goto tid (.unlock m wait .unlockPi))
  | handOver {m : μ} {wait : Option (κ × UInt32)} {waiter : Tid} {get : Get κ} (waiters : Bool)
      (phase : state.phase tid = .unlock m wait .unlockPi)
      (waiting : state.phase waiter = .lockPi get m) :
      Move state tid (((state.setFutex m { owner := some waiter, waiters }).goto waiter
        (.finish (.doGet get) m)).goto tid (.unlock m wait .close))
  | unlockClose {m : μ} {wait : Option (κ × UInt32)}
      (phase : state.phase tid = .unlock m wait .close) :
      Move state tid ((state.setPending tid none).goto tid (afterUnlock m wait))
  | read {c : κ} {m : μ} (phase : state.phase tid = .read c m) :
      Move state tid (state.goto tid (.unlock m (some (c, state.condition c)) .check))
  | sleep {c : κ} {m : μ} {start : UInt32} (phase : state.phase tid = .futexWait c m start)
      (same : state.condition c = start) :
      Move state tid ((state.setSleepers c (state.sleepers c ++ [tid])).goto tid
        (.sleeping c m start))
  | again {c : κ} {m : μ} {start : UInt32} (phase : state.phase tid = .futexWait c m start)
      (changed : state.condition c ≠ start) :
      Move state tid (state.goto tid (.getSwap (.wait c start) m))
  | waitInterrupted {c : κ} {m : μ} {start : UInt32}
      (phase : state.phase tid = .futexWait c m start) : Move state tid state
  | sleepInterrupted {c : κ} {m : μ} {start : UInt32}
      (phase : state.phase tid = .sleeping c m start) :
      Move state tid ((state.setSleepers c ((state.sleepers c).erase tid)).goto tid
        (.futexWait c m start))
  | spurious {c : κ} {m : μ} {start : UInt32} (phase : state.phase tid = .sleeping c m start) :
      Move state tid ((state.setSleepers c ((state.sleepers c).erase tid)).goto tid
        (.getSwap (.wait c start) m))
  | increment {c : κ} {broadcast : Bool} (phase : state.phase tid = .increment c broadcast) :
      Move state tid
        ({ state with condition := Function.update state.condition c (state.condition c + 1) }.goto
          tid (.wake c broadcast))
  | wake {c : κ} {broadcast : Bool} {woken : List Tid}
      (phase : state.phase tid = .wake c broadcast) (distinct : woken.Nodup)
      (asleep : woken ⊆ state.sleepers c)
      (count : woken.length = min (wakeCount broadcast) (state.sleepers c).length) :
      Move state tid (state.rouse tid c woken)

section Threads

variable {μ κ : Type} {state : State μ κ} {tid other : Tid}

theorem goto_phase (state : State μ κ) (tid : Tid) (phase : Phase μ κ) :
    (state.goto tid phase).phase tid = phase := by
  exact Function.update_self tid phase state.phase

theorem goto_phase_other (phase : Phase μ κ) (different : other ≠ tid) :
    (state.goto tid phase).phase other = state.phase other := by
  exact Function.update_of_ne different phase state.phase

theorem setBack_phase [DecidableEq μ] (state : State μ κ) (node value : Node μ) :
    (state.setBack node value).phase = state.phase := by
  cases node <;> rfl

end Threads

variable {state after : State μ κ} {tid : Tid} {outcome : Outcome}

theorem advanceLock_moves (taken : state.advanceLock tid outcome = some after) :
    Move state tid after := by
  unfold advanceLock at taken
  split at taken
  · next phase =>
    cases taken
    exact .adder phase
  · next get m phase =>
    split at taken
    · next free =>
      cases taken
      exact .getSwap phase free
    · cases taken
      exact .getTaken phase
  · next phase =>
    split at taken
    · next free =>
      cases taken
      exact .acquire _ phase free
    · cases taken
  · next phase =>
    split at taken
    · cases taken
    · cases taken
      exact .block phase
  · next phase =>
    cases taken
    exact .signal phase
  · next phase =>
    split at taken
    · next timeout =>
      cases taken
      exact .timedOut phase timeout
    · cases taken
  · next phase =>
    split at taken
    · next own =>
      cases taken
      exact .deadlock phase own
    · cases taken
  · next phase =>
    split at taken
    · next free =>
      cases taken
      exact .trySwap phase free
    · split at taken <;> cases taken
      · exact .tryDied phase
      · exact .tryTaken (.inl phase)
  · next phase =>
    split at taken
    · next free =>
      cases taken
      exact .tryAcquire _ phase free
    · cases taken
  · next phase =>
    split at taken
    · cases taken
    · cases taken
      exact .tryTaken (.inr phase)
  · next phase =>
    split at taken
    · next died =>
      cases taken
      exact .finishDied phase died
    · next clean =>
      cases taken
      exact .finish phase (Bool.eq_false_iff.mpr clean)
  · next phase =>
    cases taken
    exact .clear phase
  · next phase =>
    cases taken
    exact .close phase
  · cases taken

theorem advanceUnlock_moves {m : μ} {wait : Option (κ × UInt32)} {stage : UnlockStage μ}
    (phase : state.phase tid = .unlock m wait stage)
    (taken : state.advanceUnlock tid m wait stage outcome = some after) :
    Move state tid after := by
  unfold advanceUnlock at taken
  split at taken
  · split at taken
    · next own =>
      cases taken
      exact .check phase own
    · cases taken
      exact .notOwner phase
  · cases taken
    exact .unlockPending phase
  · cases taken
    exact .unlockNext phase
  · cases taken
    exact .unlockBack phase
  · split at taken
    · cases taken
      exact .release (.inl phase)
    · cases taken
      exact .contended phase
  · cases taken
    exact .release (.inr phase)
  · split at taken
    · next waiting =>
      split at taken
      · next same =>
        subst same
        cases taken
        exact .handOver _ phase waiting
      · cases taken
    · cases taken
  · cases taken
    exact .unlockClose phase
  · cases taken

theorem advanceCondition_moves (taken : state.advanceCondition tid outcome = some after) :
    Move state tid after := by
  unfold advanceCondition at taken
  split at taken
  · next phase =>
    cases taken
    exact .read phase
  · next phase =>
    split at taken
    · next same =>
      cases taken
      exact .sleep phase same
    · next changed =>
      cases taken
      exact .again phase changed
  · next phase =>
    cases taken
    exact .waitInterrupted phase
  · next phase =>
    cases taken
    exact .sleepInterrupted phase
  · next phase =>
    cases taken
    exact .spurious phase
  · next phase =>
    cases taken
    exact .increment phase
  · next phase =>
    split at taken
    · next chosen =>
      cases taken
      exact .wake phase chosen.1 chosen.2.1 chosen.2.2
    · cases taken
  · cases taken

theorem advance_moves (taken : state.advance tid outcome = some after) : Move state tid after := by
  unfold advance at taken
  split at taken
  · next phase =>
    split at taken
    · cases taken
      exact .add phase
    · cases taken
  · next phase => exact advanceUnlock_moves phase taken
  iterate 5
    exact advanceCondition_moves taken
  exact advanceLock_moves taken

theorem Move.live (move : Move state tid after) : state.phase tid ≠ .dead := by
  intro dead
  cases move with
  | tryTaken phase | release phase =>
    rcases phase with phase | phase
    · cases dead.symm.trans phase
    · cases dead.symm.trans phase
  | acquire waiters phase => cases dead.symm.trans phase
  | tryAcquire waiters phase => cases dead.symm.trans phase
  | handOver waiters phase => cases dead.symm.trans phase
  | _ phase => cases dead.symm.trans phase

/-- What a step of one thread can do to where another one is: hand a mutex over to it,
or wake it. -/
theorem Move.phase_other {other : Tid} (move : Move state tid after) (different : other ≠ tid) :
    after.phase other = state.phase other ∨
      (∃ get m, state.phase other = .lockPi get m ∧ after.phase other = .finish (.doGet get) m) ∨
      ∃ c m start, state.phase other = .sleeping c m start ∧
        after.phase other = .getSwap (.wait c start) m := by
  cases move with
  | @handOver m wait waiter get waiters phase waiting =>
    rw [goto_phase_other _ different]
    by_cases same : other = waiter
    · subst same
      exact .inr (.inl ⟨get, m, waiting, goto_phase _ _ _⟩)
    · exact .inl (goto_phase_other _ same)
  | @wake c broadcast woken phase distinct asleep count =>
    rw [rouse, goto_phase_other _ different]
    dsimp only
    split
    · cases there : state.phase other with
      | sleeping c m start => exact .inr (.inr ⟨c, m, start, rfl, rfl⟩)
      | _ => exact .inl rfl
    · exact .inl rfl
  | @add adding m stage phase =>
    cases stage with
    | back old =>
      exact .inl ((goto_phase_other _ different).trans (congrFun (setBack_phase _ _ _) other))
    | _ => exact .inl (goto_phase_other _ different)
  | @unlockBack m wait previous next phase =>
    exact .inl ((goto_phase_other _ different).trans (congrFun (setBack_phase _ _ _) other))
  | block phase => exact .inl rfl
  | waitInterrupted phase => exact .inl rfl
  | _ => exact .inl (goto_phase_other _ different)

/-- What happens in a step of the whole system. -/
inductive SystemMove (state : State μ κ) (tid : Tid) : Event μ κ → State μ κ → Prop
  | call (operation : Operation μ κ) (idle : state.phase tid = .idle) :
      SystemMove state tid (.call operation) (state.goto tid operation.begin)
  | advance {outcome : Outcome} {after : State μ κ} (move : Move state tid after) :
      SystemMove state tid (.advance outcome) after
  | die {list : List μ} (live : state.phase tid ≠ .dead) (visits : state.Visits tid list) :
      SystemMove state tid (.die list) (state.exit tid list)

theorem step_moves {event : Event μ κ} (taken : state.step tid event = some after) :
    SystemMove state tid event after := by
  unfold State.step at taken
  split at taken
  · next operation =>
    split at taken
    · next idle =>
      cases taken
      exact .call operation idle
    · cases taken
  · exact .advance (advance_moves taken)
  · split at taken
    · next dies =>
      cases taken
      exact .die dies.1 dies.2
    · cases taken

end Miranda.Sync
