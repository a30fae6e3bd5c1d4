import Miranda.Actions.Outstanding

/-!
# What a status message says

A status shows a run value when it names the value, or when it says that nothing is
running and the actor had already taken the goal with it. `Reports` relates the two
queues and the actor: a value that some status shows is outstanding only while the
actor is running it and that status is the newest, and no later status announces it.
The relation survives every step of the actor (`Reports.step`) and every goal with a
new run value or with run 0 (`Reports.send`).
-/

namespace Miranda.Actions

open Channel Channel.Reader List

variable {π : Type}

/-- The status lets a reader conclude that the actor has come to the value. -/
def SentStatus.Shows (entry : SentStatus) (value : UInt32) : Prop :=
  entry.status.running = value ∨ entry.status.lastRunning = value ∨
    (entry.status.running = 0 ∧ value ∈ entry.taken)

structure Reports (goals : List (Goal π)) (statuses : List SentStatus) (actor : Actor π) :
    Prop where
  reading : InStep goals actor.goal
  distinct : DistinctRequests goals
  ready : actor.Ready goals
  silent : actor.Starting → statuses = []
  known : ∀ entry ∈ statuses, ∀ value ≠ 0, entry.Shows value → value ∈ goals.map Goal.run
  once : statuses.Pairwise fun earlier later =>
    later.status.running ≠ 0 → ¬ earlier.Shows later.status.running
  ended : ∀ entry ∈ statuses.dropLast, ∀ value, entry.Shows value → ¬ MayRun goals actor value
  latest : ∀ entry, statuses.getLast? = some entry → ∀ value, entry.Shows value →
    MayRun goals actor value → actor.phase = .running value ∧ entry.status.running = value

section Sending

variable {goals : List (Goal π)} {actor after : Actor π} {status : Status} {value : UInt32}

theorem StatusMove.announces (move : StatusMove actor after status)
    (nonzero : status.running ≠ 0) : actor.phase = .sendingRunning status.running := by
  cases move with
  | idle phase => exact absurd rfl nonzero
  | running phase => exact phase
  | done phase => exact absurd rfl nonzero

theorem StatusMove.shows_taken (move : StatusMove actor after status) (ready : actor.Ready goals)
    (nonzero : value ≠ 0)
    (showing : SentStatus.Shows ⟨status, actor.taken goals⟩ value) : value ∈ actor.taken goals := by
  rcases showing with running | last | ⟨_, taken⟩
  · cases move with
    | idle phase | done phase => exact absurd running.symm nonzero
    | running phase =>
      cases running
      simp only [Actor.Ready, phase] at ready
      exact ready.2
  · cases move with
    | idle phase | running phase => exact absurd last.symm nonzero
    | done phase =>
      cases last
      simp only [Actor.Ready, phase] at ready
      exact ready.2.1
  · exact taken

/-- A new status shows an outstanding value only if it announces it. -/
theorem StatusMove.shows_running (move : StatusMove actor after status)
    (distinct : DistinctRequests goals) (ready : actor.Ready goals)
    (showing : SentStatus.Shows ⟨status, actor.taken goals⟩ value)
    (may : MayRun goals after value) :
    after.phase = .running value ∧ status.running = value := by
  have read := distinct.not_pending may.nonzero (move.shows_taken ready may.nonzero showing)
  cases move with
  | idle phase =>
    have stopped : actor.run = 0 := by
      rcases phase with phase | phase <;> simp only [Actor.Ready, phase] at ready <;> exact ready
    rcases may.pending with pending | owes
    · rw [waitForActionRequest_goal] at pending
      exact absurd pending read
    · exact absurd ((waitForActionRequest_owes owes).symm.trans stopped) may.nonzero
  | running phase =>
    rcases showing with rfl | last | ⟨zero, _⟩
    · exact ⟨rfl, rfl⟩
    · exact absurd last.symm may.nonzero
    · simp only [Actor.Ready, phase] at ready
      exact absurd zero ready.1
  | done phase =>
    simp only [Actor.Ready, phase] at ready
    rcases may.pending with pending | owes
    · rw [waitForStop_goal] at pending
      exact absurd pending read
    · obtain ⟨same, other⟩ := waitForStop_owes owes
      rcases ready.2.2 with zero | own
      · exact absurd (same.symm.trans zero) may.nonzero
      · exact absurd (same.symm.trans own) other

end Sending

section Preservation

variable {goals : List (Goal π)} {statuses : List SentStatus} {actor after : Actor π}
  {sent : List Status} {status : Status} {value : UInt32}

theorem waitForActionRequest_not_starting (actor : Actor π) :
    ¬ actor.waitForActionRequest.Starting := by
  unfold Actor.waitForActionRequest
  split <;> exact id

theorem waitForStop_not_starting (actor : Actor π) (runningId : UInt32) :
    ¬ (actor.waitForStop runningId).Starting := by
  unfold Actor.waitForStop
  split
  · exact id
  · exact waitForActionRequest_not_starting actor

theorem StatusMove.not_starting (move : StatusMove actor after status) : ¬ after.Starting := by
  cases move with
  | idle phase => exact waitForActionRequest_not_starting actor
  | running phase => exact id
  | done phase => exact waitForStop_not_starting actor _

/-- `Initialize` is run once. -/
theorem ActorMove.starting (move : ActorMove goals actor event after sent)
    (starting : after.Starting) :
    actor.Starting := by
  cases move with
  | initialNone phase | initialStopped phase | initialRunning phase | initialSame phase
  | initialOther phase => simp only [Actor.Starting, phase]
  | stopped phase => exact starting.elim
  | requested phase => exact starting.elim
  | polledNone phase => exact starting
  | polled phase => exact starting
  | changed phase | replaced result phase => exact absurd starting (waitForStop_not_starting _ _)
  | sent accepted move => exact absurd starting move.not_starting
  | returned result phase => exact starting.elim

theorem ActorMove.sent_cases (move : ActorMove goals actor event after sent) :
    sent = [] ∨ ∃ status, sent = [status] ∧ StatusMove actor after status := by
  cases move with
  | sent accepted move =>
    cases accepted with
    | false => exact .inl rfl
    | true => exact .inr ⟨_, rfl, move⟩
  | _ => exact .inl rfl

section

variable (reports : Reports goals statuses actor)
include reports

/-- A value that some status shows is outstanding only while the actor runs it. -/
theorem Reports.phase_of_mayRun {entry : SentStatus}
    (mem : entry ∈ statuses) (showing : entry.Shows value) (may : MayRun goals actor value) :
    actor.phase = .running value := by
  rcases eq_nil_or_concat statuses with rfl | ⟨earlier, last, rfl⟩
  · cases mem
  · rw [concat_eq_append] at mem reports
    rcases mem_append.mp mem with before | newest
    · refine absurd may (reports.ended entry ?_ value showing)
      rwa [dropLast_concat]
    · refine (reports.latest entry ?_ value showing may).1
      rw [mem_singleton.mp newest, getLast?_concat]

variable (single : actor.Starting → SingleRequest goals)
include single

/-- A step that sends nothing. -/
theorem Reports.quiet (move : ActorMove goals actor event after sent) :
    Reports goals statuses after :=
  { reports with
    reading := move.reading reports.reading
    ready := move.ready reports.reading reports.ready single
    silent := fun starting => reports.silent (move.starting starting)
    ended := fun entry mem value showing may =>
      reports.ended entry mem value showing (move.mayRun may)
    latest := by
      intro entry newest value showing may
      obtain ⟨running, announced⟩ :=
        reports.latest entry newest value showing (move.mayRun may)
      exact ⟨move.running_ends reports.distinct reports.ready running may, announced⟩ }

/-- A step that sends a status. What the earlier statuses show is not outstanding
then, since the actor is not in `RunAction`. -/
theorem Reports.report (move : StatusMove actor after status) :
    Reports goals (statuses ++ [⟨status, actor.taken goals⟩]) after := by
  have whole : ActorMove goals actor (.sendStatus true) after [status] := .sent true move
  have gone : ∀ entry ∈ statuses, ∀ value, entry.Shows value → ¬ MayRun goals actor value :=
    fun entry mem value showing may =>
      move.not_running value (reports.phase_of_mayRun mem showing may)
  constructor
  · exact whole.reading reports.reading
  · exact reports.distinct
  · exact whole.ready reports.reading reports.ready single
  · exact fun starting => absurd starting move.not_starting
  · refine forall_mem_append.mpr ⟨reports.known, forall_mem_singleton.mpr ?_⟩
    intro value nonzero showing
    have taken := move.shows_taken reports.ready nonzero showing
    exact map_subset _ (take_subset _ _) taken
  · apply pairwise_append.mpr
    refine ⟨reports.once, pairwise_singleton _ _, ?_⟩
    intro earlier before newest isNewest nonzero showing
    cases mem_singleton.mp isNewest
    refine gone earlier before _ showing ⟨nonzero, .inr ?_⟩
    simp only [Actor.Owes, move.announces nonzero, true_or]
  · intro entry mem value showing may
    rw [dropLast_concat] at mem
    exact gone entry mem value showing (move.mayRun may)
  · intro entry newest value showing may
    rw [getLast?_concat] at newest
    cases newest
    exact move.shows_running reports.distinct reports.ready showing may

theorem Reports.step (move : ActorMove goals actor event after sent) :
    Reports goals (statuses ++ sent.map fun status => ⟨status, actor.taken goals⟩) after := by
  rcases move.sent_cases with rfl | ⟨status, rfl, statusMove⟩
  · rw [map_nil, append_nil]
    exact reports.quiet single move
  · exact reports.report single statusMove

end

theorem taken_append (reading : InStep goals actor.goal) (goal : Goal π) :
    actor.taken (goals ++ [goal]) = actor.taken goals := by
  rw [Actor.taken, Actor.taken, reading.take_append]

theorem mayRun_append (reading : InStep goals actor.goal) {goal : Goal π}
    (may : MayRun (goals ++ [goal]) actor value) : MayRun goals actor value ∨ value = goal.run := by
  obtain ⟨nonzero, pending⟩ := may
  rw [reading.drop_append, map_append, mem_append] at pending
  rcases pending with (before | new) | owes
  · exact .inl ⟨nonzero, .inl before⟩
  · exact .inr (mem_singleton.mp new)
  · exact .inl ⟨nonzero, .inr owes⟩

theorem Reports.send (reports : Reports goals statuses actor) {goal : Goal π}
    (new : goal.run = 0 ∨ goal.run ∉ goals.map Goal.run) :
    Reports (goals ++ [goal]) statuses actor := by
  have before : ∀ entry ∈ statuses, ∀ value, entry.Shows value →
      MayRun (goals ++ [goal]) actor value → MayRun goals actor value := by
    intro entry mem value showing may
    rcases mayRun_append reports.reading may with old | rfl
    · exact old
    · rcases new with zero | fresh
      · exact absurd zero may.nonzero
      · exact absurd (reports.known entry mem _ may.nonzero showing) fresh
  constructor
  · exact reports.reading.append [goal]
  · apply pairwise_append.mpr
    refine ⟨reports.distinct, pairwise_singleton _ _, ?_⟩
    intro earlier mem later isLater nonzero same
    cases mem_singleton.mp isLater
    rcases new with zero | fresh
    · exact nonzero (same.trans zero)
    · exact fresh (mem_map.mpr ⟨earlier, mem, same⟩)
  · have ready := reports.ready
    unfold Actor.Ready at ready ⊢
    rwa [taken_append reports.reading]
  · exact reports.silent
  · intro entry mem value nonzero showing
    rw [map_append]
    exact mem_append_left _ (reports.known entry mem value nonzero showing)
  · exact reports.once
  · intro entry mem value showing may
    have old := before entry (dropLast_subset _ mem) value showing may
    exact reports.ended entry mem value showing old
  · intro entry newest value showing may
    have old := before entry (mem_of_getLast? newest) value showing may
    exact reports.latest entry newest value showing old

/-- Whatever is outstanding is on the goal queue. -/
theorem Reports.requested (reports : Reports goals statuses actor)
    (may : MayRun goals actor value) : value ∈ goals.map Goal.run := by
  have held : actor.run = value → value ∈ actor.taken goals := by
    rintro rfl
    exact run_mem_taken reports.reading may.nonzero
  have owed : actor.Owes value → value ∈ actor.taken goals := by
    intro owes
    have ready := reports.ready
    unfold Actor.Owes at owes
    split at owes
    · exact held owes
    · exact held owes
    · exact held owes
    · next runningId phase =>
      simp only [Actor.Ready, phase] at ready
      exact owes.elim (fun same => same ▸ ready.2) held
    · next runningId phase =>
      simp only [Actor.Ready, phase] at ready
      exact owes.elim (fun same => same ▸ ready.2) held
    · exact held owes.1
    · exact owes.elim
  rcases may.pending with pending | owes
  · exact map_subset _ (drop_subset _ _) pending
  · exact map_subset _ (take_subset _ _) (owed owes)

/-- What the actor runs is outstanding. -/
theorem Reports.executing (reports : Reports goals statuses actor)
    (running : actor.executing = some value) : MayRun goals actor value := by
  have ready := reports.ready
  unfold Actor.executing at running
  split at running
  case h_3 => cases running
  all_goals
    rename_i phase
    cases running
    simp only [Actor.Ready, phase] at ready
    refine ⟨ready.1, .inr ?_⟩
    simp only [Actor.Owes, phase, true_or]

end Preservation

end Miranda.Actions
