import Miranda.Actions.Actor

/-!
# What the actor may still run

A run value is outstanding while the actor could come to run it without receiving
another goal: a goal with it is still unread, or the actor is about to run it, or is
running it. `ActorMove` lists what a step of the actor can do; the results read off it
that the actor's own steps only ever remove values from this set, and that a value
which has been run is not in it any more.
-/

namespace Miranda.Actions

open Channel Channel.Reader List Option

variable {π : Type}

/-- The values the actor's current goal and place in `Run` oblige it to run. -/
def Actor.Owes (actor : Actor π) (value : UInt32) : Prop :=
  match actor.phase with
  | .initializing => actor.run = value
  | .sendingInitial => actor.run = value
  | .sendingStopped => actor.run = value
  | .sendingRunning runningId => runningId = value ∨ actor.run = value
  | .running runningId => runningId = value ∨ actor.run = value
  | .sendingDone runningId => actor.run = value ∧ value ≠ runningId
  | _ => False

/-- The actor could run the value without receiving another goal. -/
structure MayRun (goals : List (Goal π)) (actor : Actor π) (value : UInt32) : Prop where
  nonzero : value ≠ 0
  pending : value ∈ (goals.drop actor.goal.index).map Goal.run ∨ actor.Owes value

variable {actor : Actor π} {value : UInt32}

theorem waitForActionRequest_owes (owes : actor.waitForActionRequest.Owes value) :
    actor.run = value := by
  unfold Actor.waitForActionRequest at owes
  split at owes
  · exact owes.elim
  · exact owes.elim id id

theorem waitForStop_owes {runningId : UInt32} (owes : (actor.waitForStop runningId).Owes value) :
    actor.run = value ∧ value ≠ runningId := by
  unfold Actor.waitForStop at owes
  split at owes
  · exact owes.elim
  · next other =>
    have same := waitForActionRequest_owes owes
    exact ⟨same, same ▸ other⟩

@[simp]
theorem waitForActionRequest_goal (actor : Actor π) :
    actor.waitForActionRequest.goal = actor.goal := by
  unfold Actor.waitForActionRequest
  split <;> rfl

@[simp]
theorem waitForStop_goal (actor : Actor π) (runningId : UInt32) :
    (actor.waitForStop runningId).goal = actor.goal := by
  unfold Actor.waitForStop
  split
  · rfl
  · exact waitForActionRequest_goal actor

/-- The places where the actor sends a status, and where it goes from there. -/
inductive StatusMove (actor : Actor π) : Actor π → Status → Prop
  | idle (phase : actor.phase = .sendingInitial ∨ actor.phase = .sendingStopped) :
      StatusMove actor actor.waitForActionRequest ⟨0, 0, !actor.abort⟩
  | running {runningId : UInt32} (phase : actor.phase = .sendingRunning runningId) :
      StatusMove actor { actor with phase := .running runningId } ⟨runningId, 0, !actor.abort⟩
  | done {runningId : UInt32} (phase : actor.phase = .sendingDone runningId) :
      StatusMove actor (actor.waitForStop runningId) ⟨0, runningId, !actor.abort⟩

/-- What a step of the actor can do: a fetch in one of five phases, a poll of
`ShouldCancel` that finds nothing, a status, or the return of `RunAction`. -/
inductive ActorMove (goals : List (Goal π)) (actor : Actor π) :
    ActorEvent → Actor π → List Status → Prop
  | initialNone (phase : actor.phase = .initializing) :
      ActorMove goals actor .fetchGoal { actor with phase := .sendingInitial } []
  | initialStopped {skipped : List (Goal π)} {goal : Goal π} {reader : Reader (Goal π)}
      (phase : actor.phase = .initializing)
      (fetched : Fetched goals actor.goal skipped goal reader) (stopped : goal.run = 0) :
      ActorMove goals actor .fetchGoal { actor with goal := reader, phase := .sendingInitial } []
  | initialRunning {skipped : List (Goal π)} {goal : Goal π} {reader : Reader (Goal π)}
      (phase : actor.phase = .initializing)
      (fetched : Fetched goals actor.goal skipped goal reader) (running : goal.run ≠ 0) :
      ActorMove goals actor .fetchGoal
        { actor with goal := reader, phase := .initialWait goal.run } []
  | initialSame {initiallyRunning : UInt32} {goal : Goal π} {reader : Reader (Goal π)}
      (phase : actor.phase = .initialWait initiallyRunning)
      (fetched : Fetched goals actor.goal [] goal reader) :
      ActorMove goals actor .fetchGoal { actor with goal := reader } []
  | initialOther {initiallyRunning : UInt32} {goal : Goal π} {reader : Reader (Goal π)}
      (phase : actor.phase = .initialWait initiallyRunning)
      (fetched : Fetched goals actor.goal [] goal reader) (other : goal.run ≠ initiallyRunning) :
      ActorMove goals actor .fetchGoal { actor with goal := reader, phase := .sendingInitial } []
  | stopped {goal : Goal π} {reader : Reader (Goal π)} (phase : actor.phase = .waiting)
      (fetched : Fetched goals actor.goal [] goal reader) (stopped : goal.run = 0) :
      ActorMove goals actor .fetchGoal { actor with goal := reader, phase := .sendingStopped } []
  | requested {goal : Goal π} {reader : Reader (Goal π)} (phase : actor.phase = .waiting)
      (fetched : Fetched goals actor.goal [] goal reader) (request : goal.run ≠ 0) :
      ActorMove goals actor .fetchGoal
        { actor with goal := reader, phase := .sendingRunning goal.run } []
  | polledNone {runningId : UInt32} (phase : actor.phase = .running runningId) :
      ActorMove goals actor .fetchGoal actor []
  | polled {runningId : UInt32} {goal : Goal π} {reader : Reader (Goal π)}
      (phase : actor.phase = .running runningId)
      (fetched : Fetched goals actor.goal [] goal reader) :
      ActorMove goals actor .fetchGoal { actor with goal := reader } []
  | changed {runningId : UInt32} {goal : Goal π} {reader : Reader (Goal π)}
      (phase : actor.phase = .stopping runningId)
      (fetched : Fetched goals actor.goal [] goal reader) :
      ActorMove goals actor .fetchGoal
        (({ actor with goal := reader } : Actor π).waitForStop runningId) []
  | sent (accepted : Bool) {after : Actor π} {status : Status}
      (move : StatusMove actor after status) :
      ActorMove goals actor (.sendStatus accepted) after (sending accepted status)
  | returned (result : Bool) {runningId : UInt32} (phase : actor.phase = .running runningId)
      (stop : actor.run = 0 ∨ actor.run = runningId) :
      ActorMove goals actor (.finish result)
        { actor with abort := !result, phase := .sendingDone runningId } []
  | replaced (result : Bool) {runningId : UInt32} (phase : actor.phase = .running runningId)
      (replaced : actor.run ≠ 0 ∧ actor.run ≠ runningId) :
      ActorMove goals actor (.finish result)
        (({ actor with abort := !result } : Actor π).waitForStop runningId) []

section Moves

variable {goals : List (Goal π)} {actor after : Actor π} {event : ActorEvent}
  {sent : List Status} {goal : Goal π} {skipped : List (Goal π)} {runningId : UInt32}
  {status : Status} {value : UInt32}

theorem run_of_fetched {before reader : Reader (Goal π)} {abort : Bool} {phase : ActorPhase}
    (fetched : Fetched goals before skipped goal reader) :
    (⟨reader, abort, phase⟩ : Actor π).run = goal.run := by
  simp only [Actor.run, fetched.message, map_some, getD_some]

/-- A blocking fetch that has returned. -/
theorem fetchNext_inv (actor : Actor π) {next : Actor π → Actor π}
    (taken : ((actor.goal.fetchNext goals).map fun goal => { actor with goal }).map next =
      some after) :
    ∃ goal reader, Fetched goals actor.goal [] goal reader ∧
      after = next { actor with goal := reader } := by
  obtain ⟨_, mapped, rfl⟩ := map_eq_some_iff.mp taken
  obtain ⟨reader, found, rfl⟩ := map_eq_some_iff.mp mapped
  obtain ⟨goal, fetched⟩ := fetchNext_fetched found
  exact ⟨goal, reader, fetched, rfl⟩

theorem fetchGoal_moves (taken : actor.fetchGoal goals = some after) :
    ActorMove goals actor .fetchGoal after [] := by
  obtain ⟨before, abort, phase⟩ := actor
  cases phase with
  | initializing =>
    dsimp only [Actor.fetchGoal] at taken
    split at taken
    · cases taken
      exact .initialNone rfl
    · next reader found =>
      obtain ⟨skipped, goal, fetched⟩ := fetchLatest_fetched found
      rw [run_of_fetched fetched] at taken
      split at taken
      · next stopped =>
        cases taken
        exact .initialStopped rfl fetched stopped
      · next running =>
        cases taken
        exact .initialRunning rfl fetched running
  | initialWait initiallyRunning =>
    obtain ⟨goal, reader, fetched, rfl⟩ := fetchNext_inv ⟨before, abort, _⟩ taken
    rw [run_of_fetched fetched]
    split
    · exact .initialSame rfl fetched
    · next other => exact .initialOther rfl fetched other
  | waiting =>
    obtain ⟨goal, reader, fetched, rfl⟩ := fetchNext_inv ⟨before, abort, _⟩ taken
    rw [run_of_fetched fetched]
    split
    · next stopped => exact .stopped rfl fetched stopped
    · next request =>
      rw [Actor.waitForActionRequest, run_of_fetched fetched, if_neg request]
      exact .requested rfl fetched request
  | running runningId =>
    cases taken
    cases found : before.fetchNext goals with
    | none => exact .polledNone rfl
    | some reader =>
      obtain ⟨goal, fetched⟩ := fetchNext_fetched found
      exact .polled rfl fetched
  | stopping runningId =>
    obtain ⟨goal, reader, fetched, rfl⟩ := fetchNext_inv ⟨before, abort, _⟩ taken
    exact .changed rfl fetched
  | _ => cases taken

theorem sendStatus_moves (taken : actor.sendStatus = some (after, status)) :
    StatusMove actor after status := by
  unfold Actor.sendStatus at taken
  split at taken
  · next phase =>
    cases taken
    exact .idle (.inl phase)
  · next phase =>
    cases taken
    exact .idle (.inr phase)
  · next runningId phase =>
    cases taken
    exact .running phase
  · next runningId phase =>
    cases taken
    exact .done phase
  · cases taken

theorem finish_moves {result : Bool} (taken : actor.finish result = some after) :
    ActorMove goals actor (.finish result) after [] := by
  unfold Actor.finish at taken
  split at taken
  · next runningId phase =>
    dsimp only at taken
    split at taken
    · next stop =>
      cases taken
      exact .returned result phase stop
    · next go =>
      cases taken
      exact .replaced result phase (not_or.mp go)
  · cases taken

theorem step_moves (taken : actor.step goals event = some (after, sent)) :
    ActorMove goals actor event after sent := by
  cases event with
  | fetchGoal =>
    obtain ⟨next, fetched, same⟩ := map_eq_some_iff.mp taken
    cases same
    exact fetchGoal_moves fetched
  | sendStatus accepted =>
    obtain ⟨⟨next, status⟩, sending, same⟩ := map_eq_some_iff.mp taken
    cases same
    exact .sent accepted (sendStatus_moves sending)
  | finish result =>
    obtain ⟨next, finished, same⟩ := map_eq_some_iff.mp taken
    cases same
    exact finish_moves finished

/-- After a fetch the actor may run what it owed before, or the goal fetched, or what
is still unread: all of it outstanding before. -/
theorem mayRun_of_fetched (may : MayRun goals after value)
    (fetched : Fetched goals actor.goal skipped goal after.goal)
    (owed : after.Owes value → goal.run = value ∨ actor.Owes value) :
    MayRun goals actor value := by
  refine ⟨may.nonzero, ?_⟩
  rw [fetched.unread, map_append]
  rcases may.pending with later | owes
  · exact .inl (mem_append_right _ (mem_cons_of_mem _ later))
  · rcases owed owes with rfl | before
    · exact .inl (mem_append_right _ mem_cons_self)
    · exact .inr before

theorem StatusMove.mayRun (move : StatusMove actor after status) (may : MayRun goals after value) :
    MayRun goals actor value := by
  refine ⟨may.nonzero, ?_⟩
  cases move with
  | idle phase =>
    rcases may.pending with later | owes
    · rw [waitForActionRequest_goal] at later
      exact .inl later
    · have same := waitForActionRequest_owes owes
      rcases phase with phase | phase <;> simp only [Actor.Owes, phase] <;> exact .inr same
  | running phase =>
    simp only [Actor.Owes, phase]
    exact may.pending
  | done phase =>
    rcases may.pending with later | owes
    · rw [waitForStop_goal] at later
      exact .inl later
    · simp only [Actor.Owes, phase]
      exact .inr (waitForStop_owes owes)

/-- The actor's steps only remove values from what it may run. -/
theorem ActorMove.mayRun (move : ActorMove goals actor event after sent)
    (may : MayRun goals after value) : MayRun goals actor value := by
  cases move with
  | initialNone phase =>
    refine ⟨may.nonzero, may.pending.imp_right ?_⟩
    intro owes
    simp only [Actor.Owes, phase]
    exact owes
  | initialStopped phase fetched stopped | initialOther phase fetched other
  | stopped phase fetched stopped =>
    exact mayRun_of_fetched may fetched fun owes => .inl ((run_of_fetched fetched).symm.trans owes)
  | initialRunning phase fetched running =>
    exact mayRun_of_fetched may fetched fun owes => owes.elim
  | initialSame phase fetched =>
    apply mayRun_of_fetched may fetched
    intro owes
    simp only [Actor.Owes, phase] at owes
  | requested phase fetched request =>
    apply mayRun_of_fetched may fetched
    rintro (same | same)
    · exact .inl same
    · exact .inl ((run_of_fetched fetched).symm.trans same)
  | polledNone phase => exact may
  | polled phase fetched =>
    apply mayRun_of_fetched may fetched
    intro owes
    simp only [Actor.Owes, phase] at owes ⊢
    rcases owes with same | next
    · exact .inr (.inl same)
    · exact .inl ((run_of_fetched fetched).symm.trans next)
  | changed phase fetched =>
    apply mayRun_of_fetched may (by rwa [waitForStop_goal])
    intro owes
    exact .inl ((run_of_fetched fetched).symm.trans (waitForStop_owes owes).1)
  | sent accepted move => exact move.mayRun may
  | returned result phase stop =>
    refine ⟨may.nonzero, may.pending.imp_right ?_⟩
    intro owes
    simp only [Actor.Owes, phase]
    exact .inr owes.1
  | replaced result phase replaced =>
    refine ⟨may.nonzero, ?_⟩
    rcases may.pending with later | owes
    · rw [waitForStop_goal] at later
      exact .inl later
    · simp only [Actor.Owes, phase]
      exact .inr (.inr (waitForStop_owes owes).1)

end Moves

/-- What the goals taken so far say in each phase. -/
def Actor.Ready (goals : List (Goal π)) (actor : Actor π) : Prop :=
  match actor.phase with
  | .initializing => actor.run = 0
  | .initialWait initiallyRunning => initiallyRunning ≠ 0 ∧ initiallyRunning ∈ actor.taken goals
  | .sendingInitial => actor.run = 0
  | .sendingStopped => actor.run = 0
  | .sendingRunning runningId => runningId ≠ 0 ∧ runningId ∈ actor.taken goals
  | .running runningId => runningId ≠ 0 ∧ runningId ∈ actor.taken goals
  | .sendingDone runningId =>
    runningId ≠ 0 ∧ runningId ∈ actor.taken goals ∧ (actor.run = 0 ∨ actor.run = runningId)
  | _ => True

/-- The actor is still inside `Initialize`. -/
def Actor.Starting (actor : Actor π) : Prop :=
  match actor.phase with
  | .initializing => True
  | .initialWait _ => True
  | .sendingInitial => True
  | _ => False

/-- Every request on the queue is the same one. -/
def SingleRequest (goals : List (Goal π)) : Prop :=
  ∀ first ∈ goals, ∀ second ∈ goals, first.run ≠ 0 → second.run ≠ 0 → first.run = second.run

/-- No two requests have the same run value. -/
def DistinctRequests (goals : List (Goal π)) : Prop :=
  goals.Pairwise fun earlier later => earlier.run ≠ 0 → earlier.run ≠ later.run

section Readiness

variable {goals : List (Goal π)} {actor after : Actor π} {event : ActorEvent}
  {sent : List Status} {value : UInt32} {goal : Goal π} {skipped : List (Goal π)}

theorem DistinctRequests.not_pending (distinct : DistinctRequests goals) (nonzero : value ≠ 0)
    (taken : value ∈ actor.taken goals) :
    value ∉ (goals.drop actor.goal.index).map Goal.run := by
  intro pending
  obtain ⟨earlier, before, rfl⟩ := mem_map.mp taken
  obtain ⟨later, beyond, same⟩ := mem_map.mp pending
  rw [← take_append_drop _ goals] at distinct
  exact (pairwise_append.mp distinct).2.2 earlier before later beyond nonzero same.symm

theorem run_mem_taken (reading : InStep goals actor.goal) (nonzero : actor.run ≠ 0) :
    actor.run ∈ actor.taken goals := by
  unfold Actor.run at nonzero ⊢
  cases held : actor.goal.message with
  | none => simp [held] at nonzero
  | some goal =>
    have last := reading.message.symm.trans held
    exact mem_map.mpr ⟨goal, mem_of_getLast? last, rfl⟩

theorem taken_of_fetched (fetched : Fetched goals actor.goal skipped goal after.goal)
    (taken : value ∈ actor.taken goals ∨ value = goal.run) : value ∈ after.taken goals := by
  unfold Actor.taken at taken ⊢
  rw [fetched.read, map_append, map_append]
  rcases taken with before | rfl
  · exact mem_append_left _ before
  · exact mem_append_right _ (mem_append_right _ mem_cons_self)

theorem mem_of_fetched {reader : Reader (Goal π)}
    (fetched : Fetched goals actor.goal skipped goal reader) : goal ∈ goals := by
  apply mem_of_mem_drop (i := actor.goal.index)
  rw [fetched.unread]
  exact mem_append_right _ mem_cons_self

theorem waitForActionRequest_ready (reading : InStep goals actor.goal) :
    actor.waitForActionRequest.Ready goals := by
  unfold Actor.waitForActionRequest
  split
  · trivial
  · next request => exact ⟨request, run_mem_taken reading request⟩

theorem waitForStop_ready (reading : InStep goals actor.goal) (runningId : UInt32) :
    (actor.waitForStop runningId).Ready goals := by
  unfold Actor.waitForStop
  split
  · trivial
  · exact waitForActionRequest_ready reading

theorem ActorMove.reading (move : ActorMove goals actor event after sent)
    (reading : InStep goals actor.goal) : InStep goals after.goal := by
  cases move with
  | initialStopped _ fetched _ => exact fetched.inStep
  | initialRunning _ fetched _ => exact fetched.inStep
  | initialSame _ fetched => exact fetched.inStep
  | initialOther _ fetched _ => exact fetched.inStep
  | stopped _ fetched _ => exact fetched.inStep
  | requested _ fetched _ => exact fetched.inStep
  | polled _ fetched => exact fetched.inStep
  | changed _ fetched =>
    rw [waitForStop_goal]
    exact fetched.inStep
  | sent _ move =>
    cases move with
    | idle _ => rwa [waitForActionRequest_goal]
    | running _ => exact reading
    | done _ => rwa [waitForStop_goal]
  | replaced _ _ _ => rwa [waitForStop_goal]
  | _ => exact reading

/-- `Initialize` passes over the request it finds: it goes on to report only when the
goal is 0, because there is no other request to find then. -/
theorem ActorMove.ready (move : ActorMove goals actor event after sent)
    (reading : InStep goals actor.goal) (ready : actor.Ready goals)
    (single : actor.Starting → SingleRequest goals) : after.Ready goals := by
  cases move with
  | initialNone phase =>
    simp only [Actor.Ready, phase] at ready
    exact ready
  | initialStopped phase fetched stopped | stopped phase fetched stopped =>
    exact (run_of_fetched fetched).trans stopped
  | initialRunning phase fetched running => exact ⟨running, taken_of_fetched fetched (.inr rfl)⟩
  | initialSame phase fetched | polled phase fetched =>
    simp only [Actor.Ready, phase] at ready ⊢
    exact ⟨ready.1, taken_of_fetched fetched (.inl ready.2)⟩
  | initialOther phase fetched other =>
    refine (run_of_fetched fetched).trans ?_
    simp only [Actor.Ready, phase] at ready
    obtain ⟨first, before, rfl⟩ := mem_map.mp ready.2
    by_contra nonzero
    refine other (single ?_ _ (mem_of_fetched fetched) _ (mem_of_mem_take before)
      nonzero ready.1)
    simp only [Actor.Starting, phase]
  | requested phase fetched request => exact ⟨request, taken_of_fetched fetched (.inr rfl)⟩
  | polledNone phase => exact ready
  | changed phase fetched => exact waitForStop_ready fetched.inStep _
  | sent accepted move =>
    cases move with
    | idle phase => exact waitForActionRequest_ready reading
    | running phase =>
      simp only [Actor.Ready, phase] at ready
      exact ready
    | done phase => exact waitForStop_ready reading _
  | returned result phase stop =>
    simp only [Actor.Ready, phase] at ready
    exact ⟨ready.1, ready.2, stop⟩
  | replaced result phase replaced =>
    apply waitForStop_ready
    exact reading

theorem StatusMove.not_running {status : Status} (move : StatusMove actor after status)
    (value : UInt32) : actor.phase ≠ .running value := by
  intro running
  cases move with
  | idle phase => rcases phase with phase | phase <;> cases running.symm.trans phase
  | running phase | done phase => cases running.symm.trans phase

/-- Once `RunAction` has returned, its value is not outstanding any more. -/
theorem ActorMove.running_ends (move : ActorMove goals actor event after sent)
    (distinct : DistinctRequests goals) (ready : actor.Ready goals)
    (running : actor.phase = .running value) (may : MayRun goals after value) :
    after.phase = .running value := by
  have taken : value ∈ actor.taken goals := by
    simp only [Actor.Ready, running] at ready
    exact ready.2
  have read := distinct.not_pending may.nonzero taken
  cases move with
  | polledNone phase => exact running
  | polled phase fetched => exact running
  | returned result phase stop =>
    cases running.symm.trans phase
    rcases may.pending with pending | owes
    · exact absurd pending read
    · exact absurd rfl owes.2
  | replaced result phase replaced =>
    cases running.symm.trans phase
    rcases may.pending with pending | owes
    · rw [waitForStop_goal] at pending
      exact absurd pending read
    · exact absurd rfl (waitForStop_owes owes).2
  | sent accepted move => exact absurd running (move.not_running value)
  | initialNone phase | initialStopped phase | initialRunning phase | initialSame phase
  | initialOther phase | stopped phase | requested phase | changed phase =>
    cases running.symm.trans phase

end Readiness

end Miranda.Actions
