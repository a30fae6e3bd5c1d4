import Miranda.Lib.Channel

/-!
# The client side of actions: `TypedAction` and `ActionQueue`

An action sends a goal with its run value, follows the status queue to learn whether
the actor has started it or somebody else got in the way, and sends a goal with run 0
to cancel. The queue holds the current action and the one to run next. Its calls are
modelled as steps with one send or fetch each, so that the actor can act between any
two of them; what the client computes between two queue operations belongs to the step
before it. The client's phase says where in a call it is.

An action is created before it is passed to `EnqueueAction`, with other calls between
if the caller likes. All actions of a client read the status queue through the same
reader. A send may be refused. Logging is left out, and so is `old_run_value_` before
`DoStart` assigns it. `CheckInterrupted` only logs; `superseded` records as a history
what `CheckStarted` and `CheckInterrupted` have been shown.
-/

namespace Miranda.Actions

open Channel

variable {π : Type}

/-- A goal message. The parameters are whatever the queue group declares. -/
structure Goal (π : Type) where
  run : UInt32
  params : π
  deriving DecidableEq

/-- A status message. -/
structure Status where
  running : UInt32
  lastRunning : UInt32
  success : Bool
  deriving DecidableEq

structure TypedAction (π : Type) where
  runValue : UInt32
  params : π
  holdsGoal : Bool := true
  hasStarted : Bool := false
  sentStarted : Bool := false
  sentCancel : Bool := false
  interrupted : Bool := false
  oldRunValue : UInt32 := 0
  superseded : Bool := false
  deriving DecidableEq

namespace TypedAction

/-- The status names a running action that is neither this one nor the one that was
running when this one was started. -/
def foreign (action : TypedAction π) (status : Status) : Bool :=
  status.running != 0 && status.running != action.runValue &&
    status.running != action.oldRunValue

/-- The action is shown the status message the reader holds. -/
def observe (action : TypedAction π) (status : Option Status) : TypedAction π :=
  { action with superseded := action.superseded || status.any action.foreign }

/-- Whether `DoCancel` sends its message. -/
def cancels (action : TypedAction π) : Bool :=
  action.sentStarted && !action.interrupted && !action.sentCancel

/-- `CheckStarted`, on the status message the reader holds. -/
def checkStarted (action : TypedAction π) (status : Option Status) : TypedAction π :=
  if action.hasStarted then action
  else
    match status with
    | none => action
    | some status =>
      if status.running = action.runValue ∨
          (status.running = 0 ∧ status.lastRunning = action.runValue) then
        { action with hasStarted := true }
      else if action.oldRunValue ≠ 0 ∧ status.running = action.oldRunValue then action
      else { action with hasStarted := true, interrupted := true }

/-- What `DoRunning` returns after its fetches. -/
def running (action : TypedAction π) (status : Option Status) : Bool :=
  if action.interrupted then false
  else if !action.hasStarted then true
  else status.any fun status => status.running == action.runValue

/-- `DoStart` up to the result of sending the goal. -/
def started (action : TypedAction π) (accepted : Bool) : TypedAction π :=
  { action with
    holdsGoal := false
    sentStarted := true
    hasStarted := action.hasStarted || !accepted }

/-- The rest of `DoStart`, on the status message the reader holds. -/
def recordOld (action : TypedAction π) (status : Option Status) : TypedAction π :=
  { action with oldRunValue := (status.map Status.running).getD 0 }

end TypedAction

/-- Where in a call the client is. -/
inductive ClientPhase (π : Type) where
  | idle
  /-- Sending the current action's cancel; then `next_action_` may be replaced. -/
  | cancelling (queue : Option (Option (TypedAction π)))
  /-- Sending the cancel of a destroyed action; then the current one may be started. -/
  | destroying (action : TypedAction π) (start : Bool)
  | sendingStart
  | fetchingStart
  /-- `DoRunning` of an action that has started. -/
  | fetchingRunning
  /-- The loop of `DoRunning` for an action that has not started. -/
  | fetchingStarted
  deriving DecidableEq

/-- An action queue with the actions that were created for it. `made` counts the calls
of `run_counter_.fetch_add`; `discarded` is a history of the run values of the started
actions that `Tick` has given up. -/
structure Client (π : Type) where
  pid : UInt32
  made : Nat := 0
  status : Reader Status := {}
  created : List (TypedAction π) := []
  current : Option (TypedAction π) := none
  next : Option (TypedAction π) := none
  phase : ClientPhase π := .idle
  discarded : List UInt32 := []
  deriving DecidableEq

inductive ClientEvent (π : Type) where
  | create (params : π)
  | enqueueAction (position : Nat)
  | cancelCurrentAction
  | cancelAllActions
  | tick
  | sendGoal (accepted : Bool)
  | fetchStatus
  deriving DecidableEq

/-- The value of `run_counter_ | ((getpid() & 0xFFFF) << 16)`. -/
def runValue (pid : UInt32) (made : Nat) : UInt32 :=
  (UInt16.ofNat made).toUInt32 ||| ((pid &&& 0xFFFF) <<< 16)

/-- The messages a send puts on the queue. -/
def sending {α : Type} (accepted : Bool) (message : α) : List α :=
  if accepted then [message] else []

namespace Client

/-- `current_action_->Start()`, if there is a current action. -/
def start (client : Client π) : Client π :=
  match client.current with
  | some action =>
    if action.holdsGoal then { client with phase := .sendingStart }
    else { client with phase := .idle }
  | none => { client with phase := .idle }

def resume (client : Client π) (start : Bool) : Client π :=
  if start then client.start else { client with phase := .idle }

/-- The destructor of an action, with what the caller does afterwards. -/
def destroy (client : Client π) (action : Option (TypedAction π)) (start : Bool) : Client π :=
  match action with
  | some action =>
    if action.cancels then { client with phase := .destroying action start }
    else client.resume start
  | none => client.resume start

/-- Assigning `next_action_` destroys the action that was there. -/
def setNext (client : Client π) (queue : Option (Option (TypedAction π))) : Client π :=
  match queue with
  | none => { client with phase := .idle }
  | some next => { client with next := next }.destroy client.next false

/-- `current_action_->Cancel()`, if there is a current action, and then the assignment. -/
def cancel (client : Client π) (queue : Option (Option (TypedAction π))) : Client π :=
  if client.current.any TypedAction.cancels then { client with phase := .cancelling queue }
  else client.setNext queue

def enqueueAction (client : Client π) (action : TypedAction π) : Client π :=
  if client.current.isSome then client.cancel (some (some action))
  else { client with current := some action }.start

/-- `Tick` once `Running()` has returned false. -/
def discard (client : Client π) (action : TypedAction π) : Client π :=
  { client with
    current := client.next
    next := none
    discarded :=
      if action.sentStarted then client.discarded ++ [action.runValue] else client.discarded
    }.destroy (some action) true

/-- `Tick` up to the first fetch of `DoRunning`. -/
def tick (client : Client π) : Client π :=
  match client.current with
  | none => client
  | some action =>
    if !action.sentStarted then client.discard action
    else if action.hasStarted then { client with phase := .fetchingRunning }
    else { client with phase := .fetchingStarted }

/-- The end of `DoRunning`, and `Tick` after it. -/
def finishTick (client : Client π) (action : TypedAction π) : Client π :=
  if action.running client.status.message then { client with phase := .idle }
  else client.discard action

def sendGoal [Inhabited π] (client : Client π) (accepted : Bool) :
    Option (Client π × List (Goal π)) :=
  match client.phase, client.current with
  | .cancelling queue, some action =>
    some ({ client with current := some { action with sentCancel := true } }.setNext queue,
      sending accepted ⟨0, default⟩)
  | .destroying _ start, _ => some (client.resume start, sending accepted ⟨0, default⟩)
  | .sendingStart, some action =>
    some ({ client with current := some (action.started accepted), phase := .fetchingStart },
      sending accepted ⟨action.runValue, action.params⟩)
  | _, _ => none

def fetchStatus (statuses : List Status) (client : Client π) : Option (Client π) :=
  let fetched := client.status.fetchNext statuses
  match client.phase, client.current with
  | .fetchingStart, some action =>
    let status := fetched.getD client.status
    some { client with
      status := status, current := some (action.recordOld status.message), phase := .idle }
  | .fetchingRunning, some action =>
    let status := fetched.getD client.status
    let action := action.observe status.message
    some ({ client with status := status, current := some action }.finishTick action)
  | .fetchingStarted, some action =>
    match fetched with
    | some status =>
      some { client with
        status := status
        current := some ((action.observe status.message).checkStarted status.message) }
    | none => some (client.finishTick action)
  | _, _ => none

/-- A call is made when the one before it has returned. -/
def call (client after : Client π) : Option (Client π × List (Goal π)) :=
  match client.phase with
  | .idle => some (after, [])
  | _ => none

/-- One step of the client: the goals it puts on the queue and its state after. -/
def step [Inhabited π] (statuses : List Status) (client : Client π) :
    ClientEvent π → Option (Client π × List (Goal π))
  | .create params =>
    client.call { client with
      made := client.made + 1
      status := (client.status.fetchLatest statuses).getD client.status
      created := client.created ++ [{ runValue := runValue client.pid client.made, params }] }
  | .enqueueAction position =>
    (client.created[position]?).bind fun action =>
      client.call ({ client with created := client.created.eraseIdx position }.enqueueAction action)
  | .cancelCurrentAction => client.call (client.cancel none)
  | .cancelAllActions => client.call (client.cancel (some none))
  | .tick => client.call client.tick
  | .sendGoal accepted => client.sendGoal accepted
  | .fetchStatus => (client.fetchStatus statuses).map fun after => (after, [])

end Client

theorem call_inv {client after result : Client π} {sent : List (Goal π)}
    (taken : client.call result = some (after, sent)) :
    client.phase = .idle ∧ after = result ∧ sent = [] := by
  unfold Client.call at taken
  split at taken
  · next idle =>
    cases taken
    exact ⟨idle, rfl, rfl⟩
  · cases taken

end Miranda.Actions
