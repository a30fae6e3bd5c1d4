import Miranda.Actions.Client
import Miranda.Lib.Histories

/-!
# The order of the actions in a queue

An `ActionQueue` holds the action that is running and the one to run next. Here its calls
are whole steps, and a history records what each of them did to which action: calls of
`Start`, goals handed to the goal queue, results of `Running`, actions given up while they
were queued. An action is known by the order in which the actions were enqueued, since
run values repeat.

The outcome of a call is everything it gets from outside: which goals the goal queue
takes, and the status messages its fetches find. The actions of a queue may belong to
different queue groups, so the messages of one call say nothing about those of the next.
Actions are enqueued as they were created, and logging is left out.
-/

namespace Miranda.Actions

open Histories

variable {π : Type}

/-- What happens to the actions of a queue. A call begins with `called`. -/
inductive Act (π : Type) where
  | called
  | startCalled (id : Nat)
  | sentStart (id : Nat) (goal : Goal π) (accepted : Bool)
  | sentCancel (id : Nat) (goal : Goal π) (accepted : Bool)
  /-- The action became the next one. -/
  | queued (id : Nat)
  /-- The action was replaced or given up while it was the next one. -/
  | dropped (id : Nat)
  /-- What `Running()` returned for the current action. -/
  | answered (id : Nat) (running : Bool)
  /-- The action learned that it was interrupted. -/
  | interrupted (id : Nat)
  deriving DecidableEq

namespace Act

def id : Act π → Option Nat
  | .called => none
  | .startCalled id => some id
  | .sentStart id _ _ => some id
  | .sentCancel id _ _ => some id
  | .queued id => some id
  | .dropped id => some id
  | .answered id _ => some id
  | .interrupted id => some id

/-- The action that sends a goal. -/
def sender : Act π → Option Nat
  | .sentStart id _ _ => some id
  | .sentCancel id _ _ => some id
  | _ => none

/-- The action that sends its start goal. -/
def starts : Act π → Option Nat
  | .sentStart id _ _ => some id
  | _ => none

end Act

namespace TypedAction

/-- `DoCancel`: the action and what it did. -/
def doCancel [Inhabited π] (action : TypedAction π) (id : Nat) (accepted : Bool) :
    TypedAction π × List (Act π) :=
  if action.cancels then
    ({ action with sentCancel := true }, [.sentCancel id ⟨0, default⟩ accepted])
  else (action, [])

/-- `DoStart`, where the reader holds `status` after the fetch. -/
def doStart (action : TypedAction π) (id : Nat) (accepted : Bool) (status : Option Status) :
    TypedAction π × List (Act π) :=
  if action.holdsGoal then
    ((action.started accepted).recordOld status,
      [.sentStart id ⟨action.runValue, action.params⟩ accepted])
  else (action, [])

/-- `DoRunning`, where the reader holds `status` before the fetches and finds `fetched`. -/
def doRunning (action : TypedAction π) (status : Option Status) (fetched : List Status) :
    TypedAction π × Bool :=
  if !action.sentStarted then (action, false)
  else if action.hasStarted then
    let action := action.observe (fetched.head?.or status)
    (action, action.running (fetched.head?.or status))
  else
    let action := fetched.foldl
      (fun action status => (action.observe (some status)).checkStarted (some status)) action
    (action, action.running (fetched.getLast?.or status))

end TypedAction

structure Entry (π : Type) where
  id : Nat
  action : TypedAction π
  deriving DecidableEq

structure ActionQueue (π : Type) where
  current : Option (Entry π) := none
  next : Option (Entry π) := none
  count : Nat := 0
  history : List (Act π) := []
  deriving DecidableEq

/-- What a call gets from outside: whether the goal queue takes the goal of a `Cancel`, of a
destructor and of a `Start`, the status messages for `DoRunning`, and the one for `DoStart`. -/
structure Outcome where
  cancel : Bool
  destroy : Bool
  start : Bool
  status : Option Status
  fetched : List Status
  old : Option Status
  deriving DecidableEq

inductive QueueCall (π : Type) where
  /-- `holdsGoal` says whether the action got a message for its goal when it was created. -/
  | enqueueAction (runValue : UInt32) (params : π) (holdsGoal : Bool)
  | cancelCurrentAction
  | cancelAllActions
  | tick
  deriving DecidableEq

namespace ActionQueue

def note (queue : ActionQueue π) (acts : List (Act π)) : ActionQueue π :=
  { queue with history := queue.history ++ acts }

/-- `current_action_->Cancel()`, if there is a current action. -/
def cancelCurrentAction [Inhabited π] (outcome : Outcome) (queue : ActionQueue π) :
    ActionQueue π :=
  match queue.current with
  | none => queue
  | some entry =>
    let cancelled := entry.action.doCancel entry.id outcome.cancel
    { queue with current := some ⟨entry.id, cancelled.1⟩ }.note cancelled.2

/-- The destructor of an action. -/
def destroy [Inhabited π] (outcome : Outcome) (entry : Entry π) (queue : ActionQueue π) :
    ActionQueue π :=
  queue.note (entry.action.doCancel entry.id outcome.destroy).2

/-- `next_action_.reset()`. -/
def dropNext [Inhabited π] (outcome : Outcome) (queue : ActionQueue π) : ActionQueue π :=
  match queue.next with
  | none => queue
  | some entry => ({ queue with next := none }.note [.dropped entry.id]).destroy outcome entry

/-- An action becomes the current one and is started. -/
def start (outcome : Outcome) (entry : Entry π) (queue : ActionQueue π) : ActionQueue π :=
  let started := entry.action.doStart entry.id outcome.start outcome.old
  { queue with current := some ⟨entry.id, started.1⟩ }.note (.startCalled entry.id :: started.2)

def enqueueAction [Inhabited π] (outcome : Outcome) (action : TypedAction π)
    (queue : ActionQueue π) : ActionQueue π :=
  let entry : Entry π := ⟨queue.count, action⟩
  let queue := { queue with count := queue.count + 1 }
  if queue.current.isSome then
    { (queue.cancelCurrentAction outcome).dropNext outcome with next := some entry }.note
      [.queued entry.id]
  else queue.start outcome entry

def cancelAllActions [Inhabited π] (outcome : Outcome) (queue : ActionQueue π) :
    ActionQueue π :=
  (queue.cancelCurrentAction outcome).dropNext outcome

/-- What the current action has learned in `Running()`. -/
def observed (entry : Entry π) (action : TypedAction π) (queue : ActionQueue π) :
    ActionQueue π :=
  { queue with current := some ⟨entry.id, action⟩ }.note
    (if action.interrupted && !entry.action.interrupted then [.interrupted entry.id] else [])

/-- The assignment in `Tick`, which destroys the action that was current, and the start of the
next one. -/
def advance [Inhabited π] (outcome : Outcome) (entry : Entry π) (queue : ActionQueue π) :
    ActionQueue π :=
  let emptied := { queue with current := none, next := none }.destroy outcome entry
  match queue.next with
  | none => emptied
  | some next => emptied.start outcome next

def tick [Inhabited π] (outcome : Outcome) (queue : ActionQueue π) : ActionQueue π :=
  match queue.current with
  | none => queue
  | some entry =>
    let answer := entry.action.doRunning outcome.status outcome.fetched
    let queue := (queue.observed entry answer.1).note [.answered entry.id answer.2]
    if answer.2 then queue else queue.advance outcome ⟨entry.id, answer.1⟩

def step [Inhabited π] (queue : ActionQueue π) : QueueCall π × Outcome → ActionQueue π
  | (.enqueueAction runValue params holdsGoal, outcome) =>
    (queue.note [.called]).enqueueAction outcome { runValue, params, holdsGoal }
  | (.cancelCurrentAction, outcome) => (queue.note [.called]).cancelCurrentAction outcome
  | (.cancelAllActions, outcome) => (queue.note [.called]).cancelAllActions outcome
  | (.tick, outcome) => (queue.note [.called]).tick outcome

end ActionQueue

/-- `Running()` has just returned false for the current action: since then only it was cancelled,
by its destructor, and no other call was made. -/
def JustStopped (history : List (Act π)) : Prop :=
  ∃ earlier current cancels, history = earlier ++ .answered current false :: cancels ∧
    ∀ act ∈ cancels, ∃ goal accepted, act = .sentCancel current goal accepted

/-- `Start` is called for the first time, and for a queued action right after the current one
has stopped. -/
def StartInOrder (before : List (Act π)) (act : Act π) : Prop :=
  ∀ id, act = .startCalled id →
    .startCalled id ∉ before ∧ (.queued id ∈ before → JustStopped before)

/-- An action was cancelled, by a goal with run 0, or it was interrupted. -/
def Answered (id : Nat) (since : List (Act π)) : Prop :=
  (∃ goal accepted, .sentCancel id goal accepted ∈ since ∧ goal.run = 0) ∨ .interrupted id ∈ since

/-- A start goal is sent after the action that was started before has been answered. -/
def GoalInOrder (before : List (Act π)) (act : Act π) : Prop :=
  act.starts.isSome → ∀ first since, Latest Act.starts before first since → Answered first since

/-- The queue runs one action at a time. -/
structure OneAtATime (queue : ActionQueue π) : Prop where
  /-- At most one of the actions it holds has been started. -/
  single : ∀ current next, queue.current = some current → queue.next = some next →
    ¬ (.startCalled current.id ∈ queue.history ∧ .startCalled next.id ∈ queue.history)
  starts : Always StartInOrder queue.history
  /-- What was dropped while it was queued sends no goal. -/
  silent : ∀ id, .dropped id ∈ queue.history → ∀ act ∈ queue.history, act.sender ≠ some id
  goals : Always GoalInOrder queue.history

end Miranda.Actions
