import Miranda.Actions.Outstanding
import Miranda.Lib.Runs

/-!
# The requests an actor runs and the statuses it sends for them

The actor alone, with goals arriving at any point from anybody. `RunAction` polls
`ShouldCancel` any number of times and returns with either result. Two histories are
kept beside the actor: the calls of `RunAction` with the arguments they get, and a log
of the statuses sent and of the returns of `RunAction`, oldest first. Every `Send`
succeeds here, and goals are fetched in the order they were sent in; that the actor
skips none of them after `Initialize` is the queue's business.
-/

namespace Miranda.Actions

open Channel Channel.Reader Runs List Option

variable {π : Type}

/-- An entry of the actor's log. -/
inductive LogEntry where
  | status (status : Status)
  /-- `RunAction` returned, with the run value of the goal the actor held by then. -/
  | returned (runningId latest : UInt32)
  deriving DecidableEq

structure Service (π : Type) where
  goals : List (Goal π) := []
  actor : Actor π := {}
  /-- The id each `RunAction` was called for and the params it was given. -/
  calls : List (UInt32 × Option π) := []
  log : List LogEntry := []
  deriving DecidableEq

inductive ServiceEvent (π : Type) where
  | arrive (goal : Goal π)
  | fetchGoal
  | sendStatus
  | finish (result : Bool)
  deriving DecidableEq

/-- The call of `RunAction` that follows the first status of `RunIteration`. -/
def Actor.calling (actor : Actor π) : List (UInt32 × Option π) :=
  match actor.phase with
  | .sendingRunning runningId => [(runningId, actor.goal.message.map Goal.params)]
  | _ => []

def Actor.returning (actor : Actor π) : List LogEntry :=
  match actor.phase with
  | .running runningId => [.returned runningId actor.run]
  | _ => []

namespace Service

def step (service : Service π) : ServiceEvent π → Option (Service π)
  | .arrive goal => some { service with goals := service.goals ++ [goal] }
  | .fetchGoal =>
    (service.actor.fetchGoal service.goals).map fun actor => { service with actor }
  | .sendStatus =>
    service.actor.sendStatus.map fun (actor, status) =>
      { service with
        actor
        calls := service.calls ++ service.actor.calling
        log := service.log ++ [.status status] }
  | .finish result =>
    (service.actor.finish result).map fun actor =>
      { service with actor, log := service.log ++ service.actor.returning }

/-- The goals up to the one the actor holds that ask for a run. Those that `FetchLatest` skips
when the actor starts are among them. -/
def requests (service : Service π) : List (Goal π) :=
  (service.goals.take service.actor.goal.index).filter fun goal => goal.run ≠ 0

/-- The requests among the goals before the one the actor holds. -/
def earlierRequests (service : Service π) : List (Goal π) :=
  (service.goals.take service.actor.goal.index).dropLast.filter fun goal => goal.run ≠ 0

end Service

abbrev ServiceStep (service : Service π) (event : ServiceEvent π) (after : Service π) : Prop :=
  service.step event = some after

/-! ### The log -/

/-- The entry ends the run of the id: it reports the end, or another request has
replaced it. -/
def LogEntry.Ends (runningId : UInt32) : LogEntry → Prop
  | .status sent => sent.running = 0 ∧ sent.lastRunning = runningId
  | .returned returnedId latest => returnedId = runningId ∧ latest ≠ 0 ∧ latest ≠ runningId

/-- The id that has been reported as running and not ended, after one more entry. -/
def LogEntry.leaves (entry : LogEntry) (unfinished : Option UInt32) : Option UInt32 :=
  match entry with
  | .status sent =>
    if sent.running ≠ 0 then some sent.running
    else if unfinished = some sent.lastRunning then none else unfinished
  | .returned returnedId latest =>
    if unfinished = some returnedId ∧ latest ≠ 0 ∧ latest ≠ returnedId then none else unfinished

def unfinished (log : List LogEntry) : Option UInt32 :=
  log.foldl (fun runningId entry => entry.leaves runningId) none

theorem unfinished_concat (log : List LogEntry) (entry : LogEntry) :
    unfinished (log ++ [entry]) = entry.leaves (unfinished log) := by
  rw [unfinished, foldl_append]
  rfl

variable {entry : LogEntry} {runningId : UInt32}

/-- Without an end and without another report of a run, the id stays unfinished. -/
theorem leaves_of_not_ends (going : ¬ entry.Ends runningId)
    (quiet : ∀ status, entry = .status status → status.running = 0) :
    entry.leaves (some runningId) = some runningId := by
  cases entry with
  | status status =>
    have stopped := quiet status rfl
    have other : ¬ some runningId = some status.lastRunning := by
      intro same
      exact going ⟨stopped, (some.inj same).symm⟩
    simp only [LogEntry.leaves, stopped, ne_eq, not_true_eq_false, if_false, other]
  | returned returnedId latest =>
    have other : ¬ (some runningId = some returnedId ∧ latest ≠ 0 ∧ latest ≠ returnedId) := by
      rintro ⟨same, nonzero, different⟩
      cases same
      exact going ⟨rfl, nonzero, different⟩
    simp only [LogEntry.leaves, if_neg other]

theorem exists_ends (middle : List LogEntry)
    (quiet : ∀ status, .status status ∈ middle → status.running = 0)
    (finished : middle.foldl (fun unfinished entry => entry.leaves unfinished) (some runningId)
      = none) :
    ∃ entry ∈ middle, entry.Ends runningId := by
  induction middle with
  | nil => cases finished
  | cons entry rest ih =>
    by_cases ends : entry.Ends runningId
    · exact ⟨entry, mem_cons_self, ends⟩
    · have silent : ∀ status, entry = .status status → status.running = 0 := by
        rintro status rfl
        exact quiet status mem_cons_self
      rw [foldl_cons, leaves_of_not_ends ends silent] at finished
      obtain ⟨found, member, ends⟩ := ih
        (fun status member => quiet status (mem_cons_of_mem _ member)) finished
      exact ⟨found, mem_cons_of_mem _ member, ends⟩

/-- No run is reported while another one is unfinished. -/
def Spaced (log : List LogEntry) : Prop :=
  ∀ before status rest, log = before ++ .status status :: rest → status.running ≠ 0 →
    unfinished before = none

theorem Spaced.concat {log : List LogEntry} (spaced : Spaced log)
    (next : ∀ status, entry = .status status → status.running ≠ 0 → unfinished log = none) :
    Spaced (log ++ [entry]) := by
  intro before status rest split running
  rcases eq_nil_or_concat rest with rfl | ⟨initial, last, rfl⟩
  · obtain ⟨rfl, same⟩ := append_inj' split rfl
    exact next status (singleton_inj.mp same) running
  · rw [concat_eq_append, ← cons_append, ← append_assoc] at split
    exact spaced before status initial (append_inj' split rfl).1 running

/-- Between two reports of runs the first one ends. -/
theorem Spaced.ends {before middle rest : List LogEntry} {first second : Status}
    (spaced : Spaced (before ++ .status first :: (middle ++ .status second :: rest)))
    (started : first.running ≠ 0) (next : second.running ≠ 0)
    (quiet : ∀ status, .status status ∈ middle → status.running = 0) :
    ∃ entry ∈ middle, entry.Ends first.running := by
  have none := spaced (before ++ .status first :: middle) second rest
    (by rw [append_assoc, cons_append]) next
  rw [unfinished, foldl_append, foldl_cons, LogEntry.leaves, if_pos started] at none
  exact exists_ends middle quiet none

/-! ### The invariant -/

/-- The id the actor has reported as running and not yet reported as ended. -/
def Actor.reported (actor : Actor π) : Option UInt32 :=
  match actor.phase with
  | .running runningId => some runningId
  | .sendingDone runningId => some runningId
  | _ => none

/-- The goal the actor holds may still be run: no call has used it. -/
def Actor.Unused (actor : Actor π) : Prop :=
  match actor.phase with
  | .running runningId => actor.run ≠ runningId
  | .sendingDone runningId => actor.run ≠ runningId
  | .waiting => False
  | .stopping _ => False
  | _ => True

/-- The actor holds the goal it is about to run. -/
def Actor.Poised (actor : Actor π) : Prop :=
  ∀ runningId, actor.phase = .sendingRunning runningId → actor.run = runningId ∧ runningId ≠ 0

section Phases

variable {actor : Actor π} {runningId : UInt32}

theorem waitForActionRequest_poised : actor.waitForActionRequest.Poised := by
  unfold Actor.waitForActionRequest
  split
  · rintro _ ⟨⟩
  · next nonzero =>
    rintro _ ⟨⟩
    exact ⟨rfl, nonzero⟩

theorem waitForStop_poised : (actor.waitForStop runningId).Poised := by
  unfold Actor.waitForStop
  split
  · rintro _ ⟨⟩
  · exact waitForActionRequest_poised

theorem waitForStop_unused (unused : (actor.waitForStop runningId).Unused) :
    actor.run ≠ runningId := by
  unfold Actor.waitForStop at unused
  split at unused
  · exact unused.elim
  · assumption

theorem waitForActionRequest_reported : actor.waitForActionRequest.reported = none := by
  unfold Actor.waitForActionRequest
  split <;> rfl

theorem waitForStop_reported : (actor.waitForStop runningId).reported = none := by
  unfold Actor.waitForStop
  split
  · rfl
  · exact waitForActionRequest_reported

end Phases

/-- What a fetch does as far as the calls and the reports are concerned. -/
structure FetchStep (goals : List (Goal π)) (actor after : Actor π) : Prop where
  read : (after.goal = actor.goal ∧ (after.Unused → actor.Unused)) ∨
    ∃ skipped goal, Fetched goals actor.goal skipped goal after.goal
  poised : after.Poised
  reported : after.reported = actor.reported

theorem fetchGoal_fetchStep {goals : List (Goal π)} {actor after : Actor π}
    (taken : actor.fetchGoal goals = some after) : FetchStep goals actor after := by
  cases fetchGoal_moves taken with
  | initialNone phase =>
    refine ⟨.inl ⟨rfl, fun _ => ?_⟩, by rintro _ ⟨⟩, ?_⟩
    · simp only [Actor.Unused, phase]
    · simp only [Actor.reported, phase]
  | initialStopped phase fetched | initialRunning phase fetched | initialOther phase fetched
  | stopped phase fetched =>
    exact ⟨.inr ⟨_, _, fetched⟩, by rintro _ ⟨⟩, by simp only [Actor.reported, phase]⟩
  | initialSame phase fetched | polled phase fetched =>
    refine ⟨.inr ⟨_, _, fetched⟩, ?_, rfl⟩
    intro runningId sending
    cases phase.symm.trans sending
  | requested phase fetched request =>
    refine ⟨.inr ⟨_, _, fetched⟩, ?_, by simp only [Actor.reported, phase]⟩
    rintro _ ⟨⟩
    exact ⟨run_of_fetched fetched, request⟩
  | polledNone phase =>
    refine ⟨.inl ⟨rfl, id⟩, ?_, rfl⟩
    intro runningId sending
    cases phase.symm.trans sending
  | changed phase fetched =>
    refine ⟨.inr ⟨_, _, by rwa [waitForStop_goal]⟩, waitForStop_poised, ?_⟩
    rw [waitForStop_reported, Actor.reported, phase]

namespace Service

/-- The histories agree with what the actor has received and where it is. `taken` are
the goals the calls were made for. -/
structure Accounted (service : Service π) (taken : List (Goal π)) : Prop where
  reading : InStep service.goals service.actor.goal
  calls : service.calls = taken.map fun goal => (goal.run, some goal.params)
  requested : taken.Sublist service.requests
  unused : service.actor.Unused → taken.Sublist service.earlierRequests
  poised : service.actor.Poised
  spaced : Spaced service.log
  reported : unfinished service.log = service.actor.reported

def Accountable (service : Service π) : Prop := ∃ taken, service.Accounted taken

variable {service after : Service π} {taken : List (Goal π)}

theorem Accounted.arrive (accounted : service.Accounted taken) (goal : Goal π) :
    ({ service with goals := service.goals ++ [goal] } : Service π).Accounted taken :=
  { accounted with
    reading := accounted.reading.append [goal]
    requested := by
      rw [requests, accounted.reading.take_append]
      exact accounted.requested
    unused unused := by
      rw [earlierRequests, accounted.reading.take_append]
      exact accounted.unused unused }

variable {actor : Actor π}

/-- A fetch leaves every earlier request behind the goal it takes. -/
theorem requests_sublist_earlierRequests {skipped : List (Goal π)} {goal : Goal π}
    (fetched : Fetched service.goals service.actor.goal skipped goal actor.goal) :
    service.requests.Sublist ({ service with actor } : Service π).earlierRequests := by
  rw [earlierRequests, fetched.read, ← append_assoc, dropLast_concat,
    filter_append]
  exact sublist_append_left _ _

theorem earlierRequests_sublist_requests : service.earlierRequests.Sublist service.requests :=
  (dropLast_sublist _).filter _

section

variable (accounted : service.Accounted taken)
include accounted

theorem Accounted.fetchGoal (fetched : FetchStep service.goals service.actor actor) :
    ({ service with actor } : Service π).Accounted taken := by
  rcases fetched.read with ⟨same, unused⟩ | ⟨skipped, goal, read⟩
  · refine ⟨?_, accounted.calls, ?_, ?_, fetched.poised, accounted.spaced,
      accounted.reported.trans fetched.reported.symm⟩
    · rw [same]
      exact accounted.reading
    · rw [requests, same]
      exact accounted.requested
    · intro holds
      rw [earlierRequests, same]
      exact accounted.unused (unused holds)
  · have earlier := accounted.requested.trans (requests_sublist_earlierRequests read)
    exact ⟨read.inStep, accounted.calls, earlier.trans earlierRequests_sublist_requests,
      fun _ => earlier, fetched.poised, accounted.spaced,
      accounted.reported.trans fetched.reported.symm⟩

/-- The actor moves on with the goal it has and adds one entry to its log. -/
theorem Accounted.logged {entry : LogEntry}
    (goal : actor.goal = service.actor.goal) (unused : actor.Unused → service.actor.Unused)
    (poised : actor.Poised) (quiet : ∀ sent, entry = .status sent → sent.running = 0)
    (reported : entry.leaves service.actor.reported = actor.reported) :
    ({ service with actor, log := service.log ++ [entry] } : Service π).Accounted taken where
  reading := by
    rw [goal]
    exact accounted.reading
  calls := accounted.calls
  requested := by
    rw [requests, goal]
    exact accounted.requested
  unused holds := by
    rw [earlierRequests, goal]
    exact accounted.unused (unused holds)
  poised := poised
  spaced := accounted.spaced.concat fun sent same running => absurd (quiet sent same) running
  reported := by rw [unfinished_concat, accounted.reported, reported]

/-- The status that reports a run, and the call after it. -/
theorem Accounted.announce {runningId : UInt32}
    (phase : service.actor.phase = .sendingRunning runningId) :
    ∃ goal, ({ service with
      actor := { service.actor with phase := .running runningId }
      calls := service.calls ++ service.actor.calling
      log := service.log ++ [.status ⟨runningId, 0, !service.actor.abort⟩] } :
        Service π).Accounted (taken ++ [goal]) := by
  obtain ⟨holds, nonzero⟩ := accounted.poised runningId phase
  have unused : service.actor.Unused := by simp only [Actor.Unused, phase]
  have silent : unfinished service.log = none := by
    rw [accounted.reported, Actor.reported, phase]
  cases held : service.actor.goal.message with
  | none =>
    rw [Actor.run, held] at holds
    exact absurd holds.symm nonzero
  | some goal =>
    have run : goal.run = runningId := by
      rw [← holds, Actor.run, held]
      rfl
    have last := accounted.reading.message.symm.trans held
    obtain ⟨front, split⟩ := getLast?_eq_some_iff.mp last
    have earlier := accounted.unused unused
    have calling : service.actor.calling = [(goal.run, some goal.params)] := by
      rw [Actor.calling, phase, held, run]
      rfl
    refine ⟨goal, accounted.reading, ?_, ?_, ?_, by rintro _ ⟨⟩, ?_, ?_⟩
    · rw [calling, accounted.calls, map_append]
      rfl
    · rw [earlierRequests, split, dropLast_concat] at earlier
      rw [requests, split, filter_append]
      refine earlier.append ?_
      simp [run, nonzero]
    · intro other
      exact absurd holds other
    · exact accounted.spaced.concat fun _ _ _ => silent
    · rw [unfinished_concat, LogEntry.leaves, if_pos nonzero]
      rfl

theorem Accounted.sendStatus (sends : service.step .sendStatus = some after) :
    after.Accountable := by
  obtain ⟨⟨actor, status⟩, sent, rfl⟩ := map_eq_some_iff.mp sends
  cases sendStatus_moves sent with
  | idle phase =>
    have none : service.actor.reported = none ∧ service.actor.calling = [] ∧
        service.actor.Unused := by
      rcases phase with phase | phase <;>
        simp only [Actor.reported, Actor.calling, Actor.Unused, phase, and_self]
    obtain ⟨silent, calling, unused⟩ := none
    rw [calling, append_nil]
    refine ⟨taken, accounted.logged (waitForActionRequest_goal _) (fun _ => unused)
      waitForActionRequest_poised ?_ ?_⟩
    · rintro _ ⟨⟩
      rfl
    · rw [silent, waitForActionRequest_reported]
      rfl
  | running phase =>
    obtain ⟨goal, called⟩ := accounted.announce phase
    exact ⟨taken ++ [goal], called⟩
  | @done runningId phase =>
    have calling : service.actor.calling = [] := by rw [Actor.calling, phase]
    rw [calling, append_nil]
    refine ⟨taken, accounted.logged (waitForStop_goal _ _) ?_ waitForStop_poised ?_ ?_⟩
    · intro unused
      simp only [Actor.Unused, phase]
      exact waitForStop_unused unused
    · rintro _ ⟨⟩
      rfl
    · have reported : service.actor.reported = some runningId := by rw [Actor.reported, phase]
      rw [reported, waitForStop_reported]
      simp [LogEntry.leaves]

theorem Accounted.finish {result : Bool}
    (returns : service.step (.finish result) = some after) : after.Accounted taken := by
  obtain ⟨actor, returned, rfl⟩ := map_eq_some_iff.mp returns
  have facts {runningId : UInt32} (phase : service.actor.phase = .running runningId) :
      service.actor.reported = some runningId ∧
        service.actor.returning = [.returned runningId service.actor.run] ∧
        (service.actor.run ≠ runningId → service.actor.Unused) := by
    simp only [Actor.reported, Actor.returning, Actor.Unused, phase, true_and]
    exact id
  have move : ActorMove service.goals service.actor (.finish result) actor [] :=
    finish_moves returned
  cases move with
  | returned _ phase stop =>
    obtain ⟨reported, returning, unused⟩ := facts phase
    rw [returning]
    refine accounted.logged rfl unused (by rintro _ ⟨⟩) (by rintro _ ⟨⟩) ?_
    rw [reported, LogEntry.leaves, if_neg fun ends => stop.elim ends.2.1 ends.2.2]
    rfl
  | replaced _ phase replaced =>
    obtain ⟨reported, returning, unused⟩ := facts phase
    rw [returning]
    refine accounted.logged (waitForStop_goal _ _) (fun _ => unused replaced.2)
      waitForStop_poised (by rintro _ ⟨⟩) ?_
    rw [reported, LogEntry.leaves, if_pos ⟨rfl, replaced⟩, waitForStop_reported]

end

theorem Accountable.step {event : ServiceEvent π} (accountable : service.Accountable)
    (step : ServiceStep service event after) : after.Accountable := by
  obtain ⟨taken, accounted⟩ := accountable
  cases event with
  | arrive goal =>
    cases step
    exact ⟨taken, accounted.arrive goal⟩
  | fetchGoal =>
    obtain ⟨actor, fetched, rfl⟩ := map_eq_some_iff.mp step
    exact ⟨taken, accounted.fetchGoal (fetchGoal_fetchStep fetched)⟩
  | sendStatus => exact accounted.sendStatus step
  | finish result => exact ⟨taken, accounted.finish step⟩

theorem accounted_start : ({} : Service π).Accounted [] where
  reading := inStep_start []
  calls := rfl
  requested := nil_sublist _
  unused _ := nil_sublist _
  poised := by rintro _ ⟨⟩
  spaced := by
    intro before sent rest split
    exact absurd split.symm (by simp)
  reported := rfl

theorem accountable_start : ({} : Service π).Accountable := ⟨[], accounted_start⟩

end Service

/-- In every run of the actor the calls of `RunAction` are made for requests it has
received, in the order it received them and each at most once, with the run value and
the params of that very goal. Between the report that a run has started and the next
such report there is a report that the first has ended, unless its `RunAction` returned
when the actor held a goal for another run.

Proof: by induction on the run the log is spaced and the calls are those for requests
taken in order (`Accountable`). -/
theorem requests_run_once_and_reported {events : List (ServiceEvent π)} {final : Service π}
    (run : Run ServiceStep ({} : Service π) events final) :
    (∃ taken : List (Goal π), taken.Sublist final.requests ∧
      final.calls = taken.map fun goal => (goal.run, some goal.params)) ∧
    ∀ before middle rest first second,
      final.log = before ++ .status first :: (middle ++ .status second :: rest) →
      first.running ≠ 0 → second.running ≠ 0 →
      (∀ sent, .status sent ∈ middle → sent.running = 0) →
      (∃ sent, .status sent ∈ middle ∧ sent.running = 0 ∧ sent.lastRunning = first.running) ∨
      ∃ latest, .returned first.running latest ∈ middle ∧ latest ≠ 0 ∧
        latest ≠ first.running := by
  have accountable : final.Accountable := run.invariant Service.accountable_start
    fun _ _ _ accountable step => accountable.step step
  obtain ⟨taken, accounted⟩ := accountable
  refine ⟨⟨taken, accounted.requested, accounted.calls⟩, ?_⟩
  intro before middle rest first second log started next quiet
  have spaced := accounted.spaced
  rw [log] at spaced
  obtain ⟨entry, member, ends⟩ := spaced.ends started next quiet
  cases entry with
  | status sent => exact .inl ⟨sent, member, ends⟩
  | returned returnedId latest =>
    obtain ⟨rfl, replaced⟩ := ends
    exact .inr ⟨latest, member, replaced⟩

/-- The actor runs a request, polls a replacement while it does and runs that too, and
reports the end of the second when a goal with run 0 has arrived. -/
def replacedRequest : List (ServiceEvent Bool) :=
  [.fetchGoal, .sendStatus, .arrive ⟨3, true⟩, .fetchGoal, .sendStatus, .arrive ⟨4, false⟩,
    .fetchGoal, .finish true, .sendStatus, .arrive ⟨0, true⟩, .fetchGoal, .finish false, .sendStatus]

theorem requests_run_once_and_reported_sample :
    ∃ final : Service Bool, Run ServiceStep {} replacedRequest final ∧
      final.calls = [(3, some true), (4, some false)] ∧
      ∃ taken : List (Goal Bool), taken.Sublist final.requests ∧
        final.calls = taken.map fun goal => (goal.run, some goal.params) := by
  have executed : (replacedRequest.foldlM Service.step ({} : Service Bool)).map Service.calls =
      some [(3, some true), (4, some false)] := by decide
  obtain ⟨final, reached, calls⟩ := map_eq_some_iff.mp executed
  have run : Run ServiceStep {} _ final :=
    .of_foldlM (fun _ _ _ taken => taken) (.nil _) _ reached
  exact ⟨final, run, calls, (requests_run_once_and_reported run).1⟩

end Miranda.Actions
