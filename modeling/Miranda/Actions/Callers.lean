import Mathlib.Logic.Function.Basic
import Miranda.Actions.Actor

/-!
# Many clients and one actor

Any number of clients share the two queues and one actor. Beside the calls of its
action queue, a client may poll or wait for its current action with `CheckIteration`
and `WaitUntilDone`; these calls are modelled like those of the queue, one fetch a step.
-/

namespace Miranda.Actions

open Channel

variable {ι π : Type}

/-- Where in a call of `CheckIteration` or `WaitUntilDone` a client is. -/
inductive WaitPhase where
  /-- The `FetchNext` of `DoCheckIteration`. -/
  | checking
  /-- The `FetchNext` of `DoWaitUntilDone`. -/
  | beginning
  /-- The `FetchNextBlocking` of `DoCheckIteration`. -/
  | blocking
  deriving DecidableEq

/-- A client that may also wait for its current action. -/
structure Caller (π : Type) where
  client : Client π
  wait : Option WaitPhase := none
  deriving DecidableEq

inductive CallerEvent (π : Type) where
  | queue (event : ClientEvent π)
  | checkIteration
  | waitUntilDone
  | fetch
  deriving DecidableEq

namespace TypedAction

/-- `CheckStarted` at the beginning of `DoCheckIteration`. -/
def recheck (action : TypedAction π) (status : Option Status) : TypedAction π :=
  if action.hasStarted then action else (action.observe status).checkStarted status

/-- `CheckInterrupted` by itself. -/
def checkInterrupted (action : TypedAction π) (status : Option Status) : TypedAction π :=
  if !action.interrupted && action.hasStarted then action.observe status else action

end TypedAction

namespace Caller

/-- `DoCheckIteration` up to its fetch: it returns at once for an interrupted action. -/
def check (caller : Caller π) (action : TypedAction π) (phase : WaitPhase) : Caller π :=
  if action.interrupted then
    { caller with client := { caller.client with current := some action }, wait := none }
  else
    { caller with
      client := { caller.client with
        current := some (action.recheck caller.client.status.message) }
      wait := some phase }

/-- `CHECK(sent_started_)` and then the call, for the current action of an idle client. -/
def begin (caller : Caller π) (call : TypedAction π → Caller π) : Option (Caller π) :=
  match caller.wait, caller.client.phase, caller.client.current with
  | none, .idle, some action => if action.sentStarted then some (call action) else none
  | _, _, _ => none

/-- `DoCheckIteration` after its fetch, for a status that was fetched. -/
def checked (caller : Caller π) (action : TypedAction π) (status : Reader Status) :
    Caller π × TypedAction π :=
  let action := (action.observe status.message).checkStarted status.message
  ({ caller with client := { caller.client with status := status, current := some action } }, action)

/-- Whether `DoCheckIteration` returns true at its end. -/
def finished (action : TypedAction π) (status : Reader Status) : Bool :=
  action.hasStarted && status.message.any fun status => status.running != action.runValue

/-- The fetch of a waiting call, and the call up to the next one. -/
def fetch (statuses : List Status) (caller : Caller π) : Option (Caller π) :=
  let fetched := caller.client.status.fetchNext statuses
  match caller.wait, caller.client.current with
  | some .checking, some action =>
    match fetched with
    | none => some { caller with wait := none }
    | some status => some { (caller.checked action status).1 with wait := none }
  | some .beginning, some action =>
    let status := fetched.getD caller.client.status
    let caller := { caller with client := { caller.client with status := status } }
    some (caller.check (action.checkInterrupted status.message) .blocking)
  | some .blocking, some action =>
    fetched.map fun status =>
      let (caller, action) := caller.checked action status
      if finished action status then { caller with wait := none } else caller.check action .blocking
  | _, _ => none

def step [Inhabited π] (statuses : List Status) (caller : Caller π) :
    CallerEvent π → Option (Caller π × List (Goal π))
  | .queue event =>
    match caller.wait with
    | none => (caller.client.step statuses event).map fun (client, sent) =>
        ({ caller with client }, sent)
    | some _ => none
  | .checkIteration =>
    (caller.begin fun action => caller.check action .checking).map fun after => (after, [])
  | .waitUntilDone =>
    (caller.begin fun _ => { caller with wait := some .beginning }).map fun after => (after, [])
  | .fetch => (caller.fetch statuses).map fun after => (after, [])

/-- The status message that the next fetch shows to the current action. -/
def shown (statuses : List Status) (caller : Caller π) : CallerEvent π → Option Status
  | .queue .fetchStatus =>
    let fetched := caller.client.status.fetchNext statuses
    match caller.client.phase with
    | .fetchingRunning => (fetched.getD caller.client.status).message
    | .fetchingStarted => fetched.bind Reader.message
    | _ => none
  | .fetch =>
    let fetched := caller.client.status.fetchNext statuses
    match caller.wait with
    | some .beginning => (fetched.getD caller.client.status).message
    | _ => fetched.bind Reader.message
  | _ => none

end Caller

/-- The action on whose behalf the client is about to send a cancel. -/
def Client.canceller (client : Client π) : Option (TypedAction π) :=
  match client.phase with
  | .cancelling _ => client.current
  | .destroying action _ => some action
  | _ => none

/-- Clients, named by `ι`, with one actor and the two queues. -/
structure Crowd (ι π : Type) where
  goals : List (Goal π) := []
  statuses : List Status := []
  callers : ι → Caller π
  actor : Actor π := {}

inductive CrowdEvent (ι π : Type) where
  | caller (name : ι) (event : CallerEvent π)
  | actor (event : ActorEvent)
  deriving DecidableEq

namespace Crowd

def start (π : Type) (pids : ι → UInt32) : Crowd ι π where
  callers name := { client := { pid := pids name } }

def step [DecidableEq ι] [Inhabited π] (crowd : Crowd ι π) : CrowdEvent ι π → Option (Crowd ι π)
  | .caller name event =>
    ((crowd.callers name).step crowd.statuses event).map fun (caller, sent) =>
      { crowd with
        callers := Function.update crowd.callers name caller
        goals := crowd.goals ++ sent }
  | .actor event =>
    (crowd.actor.step crowd.goals event).map fun (actor, sent) =>
      { crowd with actor, statuses := crowd.statuses ++ sent }

end Crowd

end Miranda.Actions
