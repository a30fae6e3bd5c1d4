import Miranda.Actions.Client

/-!
# The actor side of actions: `ActorBase`

The actor waits for a goal, reports that it is running, calls `RunAction`, reports
that it has stopped and waits for the goal to change. `RunAction` is the subclass's: it
may call `ShouldCancel` any number of times, each of which fetches a goal if there is
one, and it returns when it likes with either result. The phases are the places where
the actor sends or fetches; the tests between them are made at the end of the step
before. `abort_` is only kept between the calls, where a status reports it.
-/

namespace Miranda.Actions

open Channel

variable {π : Type}

/-- Where in `Run` the actor is. -/
inductive ActorPhase where
  /-- The `FetchLatest` of `CheckInitialRunning`. -/
  | initializing
  /-- The loop of `CheckInitialRunning`. -/
  | initialWait (initiallyRunning : UInt32)
  /-- The status `Initialize` sends. -/
  | sendingInitial
  /-- The fetch of `WaitForActionRequest`. -/
  | waiting
  /-- The status `WaitForActionRequest` sends for a goal with run 0. -/
  | sendingStopped
  /-- The first status of `RunIteration`. -/
  | sendingRunning (runningId : UInt32)
  /-- Inside `RunAction`. -/
  | running (runningId : UInt32)
  /-- The last status of `RunIteration`. -/
  | sendingDone (runningId : UInt32)
  /-- The fetch of `WaitForStop`. -/
  | stopping (runningId : UInt32)
  deriving DecidableEq

structure Actor (π : Type) where
  goal : Reader (Goal π) := {}
  abort : Bool := false
  phase : ActorPhase := .initializing
  deriving DecidableEq

inductive ActorEvent where
  | fetchGoal
  | sendStatus (accepted : Bool)
  | finish (result : Bool)
  deriving DecidableEq

namespace Actor

/-- `goal->run` of the goal the actor holds, and 0 when it holds none. -/
def run (actor : Actor π) : UInt32 := (actor.goal.message.map Goal.run).getD 0

/-- `WaitForActionRequest` up to its next queue operation, or `RunIteration` if there
is a request. -/
def waitForActionRequest (actor : Actor π) : Actor π :=
  if actor.run = 0 then { actor with phase := .waiting }
  else { actor with phase := .sendingRunning actor.run }

/-- `WaitForStop` up to its next queue operation, or `WaitForActionRequest` if there is
nothing to wait for. -/
def waitForStop (actor : Actor π) (runningId : UInt32) : Actor π :=
  if actor.run = runningId then { actor with phase := .stopping runningId }
  else actor.waitForActionRequest

/-- One fetch. The blocking ones wait until there is a goal. -/
def fetchGoal (goals : List (Goal π)) (actor : Actor π) : Option (Actor π) :=
  let fetched := (actor.goal.fetchNext goals).map fun goal => { actor with goal }
  match actor.phase with
  | .initializing =>
    match actor.goal.fetchLatest goals with
    | none => some { actor with phase := .sendingInitial }
    | some goal =>
      let actor : Actor π := { actor with goal }
      if actor.run = 0 then some { actor with phase := .sendingInitial }
      else some { actor with phase := .initialWait actor.run }
  | .initialWait initiallyRunning =>
    fetched.map fun actor =>
      if actor.run = initiallyRunning then actor else { actor with phase := .sendingInitial }
  | .waiting =>
    fetched.map fun actor =>
      if actor.run = 0 then { actor with phase := .sendingStopped } else actor.waitForActionRequest
  | .running _ => some (fetched.getD actor)
  | .stopping runningId => fetched.map fun actor => actor.waitForStop runningId
  | _ => none

def sendStatus (actor : Actor π) : Option (Actor π × Status) :=
  match actor.phase with
  | .sendingInitial => some (actor.waitForActionRequest, ⟨0, 0, !actor.abort⟩)
  | .sendingStopped => some (actor.waitForActionRequest, ⟨0, 0, !actor.abort⟩)
  | .sendingRunning runningId =>
    some ({ actor with phase := .running runningId }, ⟨runningId, 0, !actor.abort⟩)
  | .sendingDone runningId => some (actor.waitForStop runningId, ⟨0, runningId, !actor.abort⟩)
  | _ => none

/-- `RunIteration` after `RunAction` has returned. -/
def finish (actor : Actor π) (result : Bool) : Option (Actor π) :=
  match actor.phase with
  | .running runningId =>
    let actor : Actor π := { actor with abort := !result }
    if actor.run = 0 ∨ actor.run = runningId then
      some { actor with phase := .sendingDone runningId }
    else some (actor.waitForStop runningId)
  | _ => none

/-- One step of the actor: the statuses it puts on the queue and its state after. -/
def step (goals : List (Goal π)) (actor : Actor π) :
    ActorEvent → Option (Actor π × List Status)
  | .fetchGoal => (actor.fetchGoal goals).map fun after => (after, [])
  | .sendStatus accepted =>
    actor.sendStatus.map fun (after, status) => (after, sending accepted status)
  | .finish result => (actor.finish result).map fun after => (after, [])

/-- The run values of the goals the actor has fetched or skipped. -/
def taken (goals : List (Goal π)) (actor : Actor π) : List UInt32 :=
  (goals.take actor.goal.index).map Goal.run

/-- The run value whose action the actor runs, from the moment it commits to it. -/
def executing (actor : Actor π) : Option UInt32 :=
  match actor.phase with
  | .sendingRunning runningId => some runningId
  | .running runningId => some runningId
  | _ => none

end Actor

/-- A status message on the queue, with a history of the run values of the goals that
the actor had fetched or skipped when it sent the message. -/
structure SentStatus where
  status : Status
  taken : List UInt32
  deriving DecidableEq

/-- One client and one actor with the two queues between them. -/
structure Exchange (π : Type) where
  goals : List (Goal π) := []
  statuses : List SentStatus := []
  client : Client π
  actor : Actor π := {}
  deriving DecidableEq

inductive Event (π : Type) where
  | client (event : ClientEvent π)
  | actor (event : ActorEvent)
  deriving DecidableEq

namespace Exchange

/-- Before either side has done anything. -/
def start (π : Type) (pid : UInt32) : Exchange π where
  client := { pid }

/-- One step of either side. -/
def step [Inhabited π] (exchange : Exchange π) : Event π → Option (Exchange π)
  | .client event =>
    (exchange.client.step (exchange.statuses.map SentStatus.status) event).map fun (client, sent) =>
      { exchange with client, goals := exchange.goals ++ sent }
  | .actor event =>
    (exchange.actor.step exchange.goals event).map fun (actor, sent) =>
      { exchange with
        actor
        statuses := exchange.statuses ++ sent.map fun status =>
          ⟨status, exchange.actor.taken exchange.goals⟩ }

end Exchange

end Miranda.Actions
