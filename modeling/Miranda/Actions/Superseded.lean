import Miranda.Lib.Runs
import Miranda.Actions.Callers

/-!
# A superseded action and the cancel message

A client's action that has seen somebody else's run value in a status should not send a
cancel any more: the cancel would stop the other action. `CheckStarted` sets
`interrupted_` when it sees such a value, and `DoCancel` then stays silent; but
`CheckInterrupted`, which looks at the statuses of an action that has started, only
logs. So the property holds in the runs where an action sees a foreign value only before
it has started, or after it was interrupted already. What the statuses say is left open:
the argument is about each client alone.
-/

namespace Miranda.Actions

open Channel Channel.Reader Runs Option

variable {ι π : Type}

/-- A foreign value is shown to the caller's action only before it has started, or when it was
interrupted already. -/
abbrev Caller.SeesInTime (caller : Caller π) (statuses : List Status) (event : CallerEvent π) :
    Prop :=
  ∀ action ∈ caller.client.current, ∀ status ∈ caller.shown statuses event,
    action.foreign status = true → action.hasStarted = false ∨ action.interrupted = true

/-- The condition for the caller whose turn it is. -/
def SeenInTime (crowd : Crowd ι π) : CrowdEvent ι π → Prop
  | .caller name event => (crowd.callers name).SeesInTime crowd.statuses event
  | .actor _ => True

def CrowdStep [DecidableEq ι] [Inhabited π] (crowd : Crowd ι π) (event : CrowdEvent ι π)
    (after : Crowd ι π) : Prop :=
  crowd.step event = some after

def TimelyStep [DecidableEq ι] [Inhabited π] (crowd : Crowd ι π) (event : CrowdEvent ι π)
    (after : Crowd ι π) : Prop :=
  CrowdStep crowd event after ∧ SeenInTime crowd event

section Sincerity

/-- An action that has seen a foreign value knows it. -/
def TypedAction.Aware (action : TypedAction π) : Prop :=
  action.superseded = true → action.interrupted = true

theorem checkStarted_superseded (action : TypedAction π) (status : Option Status) :
    (action.checkStarted status).superseded = action.superseded := by
  unfold TypedAction.checkStarted
  repeat' split
  all_goals rfl

variable {action : TypedAction π} {status : Option Status} {statuses : List Status}

theorem checkStarted_interrupted (status : Option Status) (interrupted : action.interrupted = true) :
    (action.checkStarted status).interrupted = true := by
  unfold TypedAction.checkStarted
  repeat' split
  all_goals first | exact interrupted | rfl

/-- `CheckStarted` interrupts an action that has not started on a foreign value. -/
theorem checkStarted_foreign {status : Status} (unstarted : action.hasStarted = false)
    (foreign : action.foreign status = true) :
    (action.checkStarted (some status)).interrupted = true := by
  simp only [TypedAction.foreign, Bool.and_eq_true, bne_iff_ne, ne_eq] at foreign
  obtain ⟨⟨running, other⟩, older⟩ := foreign
  simp only [TypedAction.checkStarted, unstarted, running, other, older, Bool.false_eq_true,
    false_and, and_false, or_false, if_false]

/-- Showing a status to an aware action, with `CheckStarted` after it. -/
theorem TypedAction.Aware.shown (aware : action.Aware)
    (seen : ∀ message ∈ status, action.foreign message = true →
      action.hasStarted = false ∨ action.interrupted = true) :
    ((action.observe status).checkStarted status).Aware := by
  intro superseded
  rw [checkStarted_superseded] at superseded
  simp only [TypedAction.observe, Bool.or_eq_true] at superseded
  rcases superseded with before | now
  · exact checkStarted_interrupted status (aware before)
  · cases status with
    | none => cases now
    | some message =>
      rcases seen message rfl now with unstarted | interrupted
      · have shown : (action.observe (some message)).hasStarted = false := unstarted
        exact checkStarted_foreign shown now
      · exact checkStarted_interrupted _ interrupted

/-- Every action the client holds is aware. -/
structure Client.Aware (client : Client π) : Prop where
  created : ∀ action ∈ client.created, action.Aware
  current : ∀ action ∈ client.current, action.Aware
  next : ∀ action ∈ client.next, action.Aware

/-- A cancel is about to be sent only for an aware action that `DoCancel` does not keep
silent for, and the first branch of `DoRunning` is for actions that have started. -/
def ClientPhase.Sincere (phase : ClientPhase π) (current : Option (TypedAction π)) : Prop :=
  match phase with
  | .cancelling queue =>
    (∀ action, queue = some (some action) → action.Aware) ∧
      ∀ action ∈ current, action.cancels = true
  | .destroying action _ => action.Aware ∧ action.cancels = true
  | .fetchingRunning => ∀ action ∈ current, action.hasStarted = true
  | _ => True

structure Client.Sincere (client : Client π) : Prop extends client.Aware where
  phase : client.phase.Sincere client.current

variable {client after : Client π} {action : TypedAction π}

section

variable (aware : client.Aware)
include aware

theorem Client.Aware.rephase {phase : ClientPhase π}
    (sincere : phase.Sincere client.current) : Client.Sincere { client with phase := phase } :=
  { created := aware.created, current := aware.current, next := aware.next, phase := sincere }

theorem Client.Aware.setCurrent (changed : action.Aware)
    (status : Reader Status) :
    Client.Aware { client with status := status, current := some action } :=
  { aware with
    current := by
      rintro _ ⟨⟩
      exact changed }

theorem Client.Aware.start : client.start.Sincere := by
  unfold Client.start
  repeat' split
  · exact aware.rephase trivial
  · exact aware.rephase trivial
  · exact aware.rephase trivial

theorem Client.Aware.resume (start : Bool) :
    (client.resume start).Sincere := by
  cases start with
  | false => exact aware.rephase trivial
  | true => exact aware.start

theorem Client.Aware.destroy {destroyed : Option (TypedAction π)}
    (also : ∀ action ∈ destroyed, action.Aware) (start : Bool) :
    (client.destroy destroyed start).Sincere := by
  cases destroyed with
  | none => exact aware.resume start
  | some action =>
    unfold Client.destroy
    dsimp only
    split
    · next cancels => exact aware.rephase ⟨also action rfl, cancels⟩
    · exact aware.resume start

end

section Queueing

variable {queue : Option (Option (TypedAction π))}
  (also : ∀ action, queue = some (some action) → action.Aware)

include also

theorem Client.Aware.setNext (aware : client.Aware) : (client.setNext queue).Sincere := by
  cases queue with
  | none => exact aware.rephase trivial
  | some next =>
    have replaced : Client.Aware { client with next := next } :=
      { created := aware.created
        current := aware.current
        next := fun action found => also action (congrArg some found) }
    exact replaced.destroy aware.next false

theorem Client.Aware.cancel (aware : client.Aware) : (client.cancel queue).Sincere := by
  unfold Client.cancel
  split
  · next cancels =>
    refine aware.rephase ⟨also, ?_⟩
    intro action found
    rw [mem_def.mp found] at cancels
    exact cancels
  · exact aware.setNext also

end Queueing

theorem Client.Aware.enqueueAction (aware : client.Aware) (new : action.Aware) :
    (client.enqueueAction action).Sincere := by
  unfold Client.enqueueAction
  split
  · apply aware.cancel
    rintro _ ⟨⟩
    exact new
  · exact (aware.setCurrent new _).start

theorem Client.Aware.discard (aware : client.Aware) (given : action.Aware) :
    (client.discard action).Sincere := by
  apply Client.Aware.destroy
  · exact
      { created := aware.created
        current := aware.next
        next := fun action found => by cases found }
  · rintro _ ⟨⟩
    exact given

theorem Client.Aware.finishTick (aware : client.Aware) (own : action.Aware) :
    (client.finishTick action).Sincere := by
  unfold Client.finishTick
  split
  · exact aware.rephase trivial
  · exact aware.discard own

theorem Client.Sincere.tick (sincere : client.Sincere) : client.tick.Sincere := by
  unfold Client.tick
  split
  · exact sincere
  · next action found =>
    repeat' split
    · exact sincere.toAware.discard (sincere.current action found)
    · next started =>
      apply sincere.toAware.rephase
      intro other isCurrent
      cases some.inj (found.symm.trans isCurrent)
      exact started
    · exact sincere.toAware.rephase trivial

theorem Client.Sincere.sendGoal [Inhabited π] (sincere : client.Sincere) {accepted : Bool}
    {sent : List (Goal π)} (taken : client.sendGoal accepted = some (after, sent)) :
    after.Sincere := by
  unfold Client.sendGoal at taken
  split at taken
  · next queue action phase found =>
    cases taken
    have queued := sincere.phase
    rw [phase] at queued
    have marked : ({ action with sentCancel := true } : TypedAction π).Aware :=
      sincere.current action found
    exact (sincere.toAware.setCurrent marked _).setNext queued.1
  · cases taken
    exact sincere.toAware.resume _
  · next action phase found =>
    cases taken
    have started : (action.started accepted).Aware := sincere.current action found
    exact (sincere.toAware.setCurrent started _).rephase trivial
  · cases taken

/-- A status shown to an aware action that is not looked at by `CheckStarted`. -/
theorem TypedAction.Aware.observe (aware : action.Aware)
    (seen : ∀ message ∈ status, action.foreign message = true → action.interrupted = true) :
    (action.observe status).Aware := by
  intro superseded
  simp only [TypedAction.observe, Bool.or_eq_true] at superseded
  rcases superseded with before | now
  · exact aware before
  · cases status with
    | none => cases now
    | some message => exact seen message rfl now

theorem Client.Sincere.fetchStatus (sincere : client.Sincere)
    (seen : ({ client } : Caller π).SeesInTime statuses (.queue .fetchStatus))
    (taken : client.fetchStatus statuses = some after) : after.Sincere := by
  have aware := sincere.toAware
  unfold Client.fetchStatus at taken
  dsimp only at taken
  split at taken
  · next action phase found =>
    cases taken
    have old := sincere.current action found
    have recorded : (action.recordOld
        ((client.status.fetchNext statuses).getD client.status).message).Aware := old
    exact (aware.setCurrent recorded _).rephase trivial
  · next action phase found =>
    cases taken
    have started := sincere.phase
    rw [phase] at started
    have own : (action.observe
        ((client.status.fetchNext statuses).getD client.status).message).Aware := by
      apply (sincere.current action found).observe
      intro message shown foreign
      have inTime := seen action found message
        (by simpa only [Caller.shown, phase] using shown) foreign
      rw [started action found] at inTime
      exact inTime.resolve_left (by decide)
    exact (aware.setCurrent own _).finishTick own
  · next action phase found =>
    split at taken
    · next status next =>
      cases taken
      have own : ((action.observe status.message).checkStarted status.message).Aware := by
        apply (sincere.current action found).shown
        intro message shown
        apply seen action found message
        simpa only [Caller.shown, phase, next, bind_some] using shown
      refine { toAware := aware.setCurrent own status, phase := ?_ }
      simp only [phase, ClientPhase.Sincere]
    · cases taken
      exact aware.finishTick (sincere.current action found)
  · cases taken

theorem Client.Sincere.step [Inhabited π] (sincere : client.Sincere) {event : ClientEvent π}
    {sent : List (Goal π)}
    (seen : ({ client } : Caller π).SeesInTime statuses (.queue event))
    (taken : client.step statuses event = some (after, sent)) : after.Sincere := by
  have aware := sincere.toAware
  cases event with
  | create params =>
    obtain ⟨idle, rfl, rfl⟩ := call_inv taken
    refine
      { created := ?_
        current := aware.current
        next := aware.next
        phase := sincere.phase }
    refine List.forall_mem_append.mpr ⟨aware.created, List.forall_mem_singleton.mpr ?_⟩
    intro superseded
    cases superseded
  | enqueueAction position =>
    obtain ⟨action, found, called⟩ := bind_eq_some_iff.mp taken
    obtain ⟨idle, rfl, rfl⟩ := call_inv called
    have rest : Client.Aware { client with created := client.created.eraseIdx position } :=
      { created := fun action mem => aware.created action (List.eraseIdx_subset mem)
        current := aware.current
        next := aware.next }
    exact rest.enqueueAction (aware.created action (List.mem_of_getElem? found))
  | cancelCurrentAction | cancelAllActions =>
    obtain ⟨idle, rfl, rfl⟩ := call_inv taken
    apply aware.cancel
    rintro _ ⟨⟩
  | tick =>
    obtain ⟨idle, rfl, rfl⟩ := call_inv taken
    exact sincere.tick
  | sendGoal accepted => exact sincere.sendGoal taken
  | fetchStatus =>
    obtain ⟨next, fetched, same⟩ := map_eq_some_iff.mp taken
    cases same
    exact sincere.fetchStatus seen fetched

end Sincerity

section Waiting

variable {caller after : Caller π} {action : TypedAction π}

/-- While a client waits for its action it is not about to send anything. -/
structure Caller.Sincere (caller : Caller π) : Prop where
  client : caller.client.Sincere
  idle : caller.wait ≠ none → caller.client.phase = .idle

theorem TypedAction.Aware.recheck (aware : action.Aware) (status : Option Status) :
    (action.recheck status).Aware := by
  unfold TypedAction.recheck
  split
  · exact aware
  · next unstarted =>
    apply aware.shown
    intro message _ _
    exact .inl (Bool.not_eq_true _ ▸ unstarted)

theorem Caller.Sincere.setCurrent (sincere : caller.Sincere) (waiting : caller.client.phase = .idle)
    (own : action.Aware) (status : Reader Status) (wait : Option WaitPhase) :
    Caller.Sincere
      { client := { caller.client with status := status, current := some action },
        wait := wait } where
  client :=
    { toAware := sincere.client.toAware.setCurrent own status
      phase := by simp only [waiting, ClientPhase.Sincere] }
  idle := fun _ => waiting

theorem Caller.Sincere.check (sincere : caller.Sincere) (waiting : caller.client.phase = .idle)
    (own : action.Aware) (phase : WaitPhase) : (caller.check action phase).Sincere := by
  unfold Caller.check
  split
  · exact sincere.setCurrent waiting own _ none
  · exact sincere.setCurrent waiting (own.recheck _) _ _

theorem Caller.Sincere.setStatus (sincere : caller.Sincere) (status : Reader Status) :
    Caller.Sincere { caller with client := { caller.client with status := status } } where
  client :=
    { created := sincere.client.created
      current := sincere.client.current
      next := sincere.client.next
      phase := sincere.client.phase }
  idle := sincere.idle

theorem TypedAction.Aware.checkInterrupted (aware : action.Aware) {status : Option Status}
    (seen : ∀ message ∈ status, action.foreign message = true →
      action.hasStarted = false ∨ action.interrupted = true) :
    (action.checkInterrupted status).Aware := by
  unfold TypedAction.checkInterrupted
  split
  · next looks =>
    rw [Bool.and_eq_true] at looks
    apply aware.observe
    intro message shown foreign
    rcases seen message shown foreign with unstarted | interrupted
    · rw [looks.2] at unstarted
      cases unstarted
    · exact interrupted
  · exact aware

theorem begin_inv {call : TypedAction π → Caller π} (taken : caller.begin call = some after) :
    caller.client.phase = .idle ∧ ∃ action, caller.client.current = some action ∧
      after = call action := by
  unfold Caller.begin at taken
  split at taken
  · next action _ idle found =>
    split at taken
    · cases taken
      exact ⟨idle, action, found, rfl⟩
    · cases taken
  · cases taken

variable {statuses : List Status}

theorem Caller.Sincere.fetch (sincere : caller.Sincere)
    (seen : caller.SeesInTime statuses .fetch)
    (taken : caller.fetch statuses = some after) : after.Sincere := by
  have own {action : TypedAction π} {status : Option Status}
      (found : caller.client.current = some action)
      (isShown : caller.shown statuses .fetch = status) :
      ((action.observe status).checkStarted status).Aware := by
    apply (sincere.client.current action found).shown
    rw [← isShown]
    exact seen action found
  unfold Caller.fetch at taken
  dsimp only at taken
  split at taken
  · next action wait found =>
    have idle := sincere.idle (by rw [wait]; exact some_ne_none _)
    split at taken
    · cases taken
      exact ⟨sincere.client, absurd rfl⟩
    · next status next =>
      cases taken
      have isShown : caller.shown statuses .fetch = status.message := by
        simp only [Caller.shown, wait, next, bind_some]
      exact sincere.setCurrent idle (own found isShown) status none
  · next action wait found =>
    have idle := sincere.idle (by rw [wait]; exact some_ne_none _)
    cases taken
    have own : (action.checkInterrupted
        ((caller.client.status.fetchNext statuses).getD caller.client.status).message).Aware := by
      apply (sincere.client.current action found).checkInterrupted
      intro message shown
      apply seen action found message
      simpa only [Caller.shown, wait] using shown
    have moved := sincere.setStatus
      ((caller.client.status.fetchNext statuses).getD caller.client.status)
    exact moved.check idle own _
  · next action wait found =>
    have idle := sincere.idle (by rw [wait]; exact some_ne_none _)
    obtain ⟨status, next, rfl⟩ := map_eq_some_iff.mp taken
    have isShown : caller.shown statuses .fetch = status.message := by
      simp only [Caller.shown, wait, next, bind_some]
    have shown := sincere.setCurrent idle (own found isShown) status caller.wait
    split
    · exact sincere.setCurrent idle (own found isShown) status none
    · exact .check shown idle (own found isShown) _
  · cases taken

theorem Caller.Sincere.step [Inhabited π] (sincere : caller.Sincere) {event : CallerEvent π}
    {sent : List (Goal π)}
    (seen : caller.SeesInTime statuses event)
    (taken : caller.step statuses event = some (after, sent)) : after.Sincere := by
  cases event with
  | queue event =>
    unfold Caller.step at taken
    dsimp only at taken
    split at taken
    · next free =>
      obtain ⟨⟨client, _⟩, stepped, same⟩ := map_eq_some_iff.mp taken
      cases same
      refine ⟨sincere.client.step ?_ stepped, absurd free⟩
      intro action found status shown
      apply seen action found status
      cases event <;> exact shown
    · cases taken
  | checkIteration =>
    obtain ⟨_, begun, same⟩ := map_eq_some_iff.mp taken
    cases same
    obtain ⟨idle, action, found, rfl⟩ := begin_inv begun
    exact sincere.check idle (sincere.client.current action found) _
  | waitUntilDone =>
    obtain ⟨_, begun, same⟩ := map_eq_some_iff.mp taken
    cases same
    obtain ⟨idle, action, found, rfl⟩ := begin_inv begun
    exact ⟨sincere.client, fun _ => idle⟩
  | fetch =>
    obtain ⟨_, fetched, same⟩ := map_eq_some_iff.mp taken
    cases same
    exact sincere.fetch seen fetched

end Waiting

section Crowds

variable [DecidableEq ι] [Inhabited π] {crowd after : Crowd ι π}

theorem timelyStep_sincere {event : CrowdEvent ι π}
    (sincere : ∀ name, (crowd.callers name).Sincere) (step : TimelyStep crowd event after) :
    ∀ name, (after.callers name).Sincere := by
  obtain ⟨taken, seen⟩ := step
  cases event with
  | actor event =>
    obtain ⟨_, _, rfl⟩ := map_eq_some_iff.mp taken
    exact sincere
  | caller mover event =>
    obtain ⟨⟨caller, sent⟩, stepped, rfl⟩ := map_eq_some_iff.mp taken
    intro name
    by_cases same : name = mover
    · rw [same]
      simp only [Function.update_self]
      exact (sincere mover).step seen stepped
    · simp only [Function.update_of_ne same]
      exact sincere name

omit [DecidableEq ι] [Inhabited π] in
theorem start_sincere (pids : ι → UInt32) (name : ι) :
    ((Crowd.start π pids).callers name).Sincere where
  client :=
    { created := fun action mem => by cases mem
      current := fun action found => by cases found
      next := fun action found => by cases found
      phase := trivial }
  idle := fun waits => absurd rfl waits

variable {client : Client π} {goal : Goal π} {sent : List (Goal π)}

omit [DecidableEq ι] in
/-- A goal with run 0 is a cancel, or starts an action whose run value is 0. -/
theorem sendGoal_zero {next : Client π} {accepted : Bool}
    (taken : client.sendGoal accepted = some (next, sent)) (mem : goal ∈ sent) (zero : goal.run = 0) :
    (∃ action, client.canceller = some action) ∨
      ∃ action, client.phase = .sendingStart ∧ client.current = some action ∧
        action.runValue = 0 := by
  unfold Client.sendGoal at taken
  split at taken
  · next queue action phase found =>
    exact .inl ⟨action, by simp only [Client.canceller, phase, found]⟩
  · next phase => exact .inl ⟨_, by simp only [Client.canceller, phase]; rfl⟩
  · next action phase found =>
    cases taken
    cases accepted with
    | false => cases mem
    | true =>
      cases List.mem_singleton.mp mem
      exact .inr ⟨action, phase, found, zero⟩
  · cases taken

omit [DecidableEq ι] in
/-- The only step that puts a goal on the queue. -/
theorem Caller.step_sends {caller next : Caller π} {statuses : List Status} {event : CallerEvent π}
    (taken : caller.step statuses event = some (next, sent)) (mem : goal ∈ sent) :
    ∃ accepted client, event = .queue (.sendGoal accepted) ∧
      caller.client.sendGoal accepted = some (client, sent) := by
  cases event with
  | checkIteration | waitUntilDone | fetch =>
    obtain ⟨_, _, same⟩ := Option.map_eq_some_iff.mp taken
    cases same
    cases mem
  | queue event =>
    unfold Caller.step at taken
    dsimp only at taken
    split at taken
    · obtain ⟨⟨client, _⟩, stepped, same⟩ := Option.map_eq_some_iff.mp taken
      cases same
      cases event with
      | create params | cancelCurrentAction | cancelAllActions | tick =>
        obtain ⟨_, _, rfl⟩ := call_inv stepped
        cases mem
      | enqueueAction position =>
        obtain ⟨_, _, called⟩ := Option.bind_eq_some_iff.mp stepped
        obtain ⟨_, _, rfl⟩ := call_inv called
        cases mem
      | sendGoal accepted => exact ⟨accepted, client, rfl, stepped⟩
      | fetchStatus =>
        obtain ⟨_, _, same⟩ := Option.map_eq_some_iff.mp stepped
        cases same
        cases mem
    · cases taken

omit [DecidableEq ι] [Inhabited π] in
theorem Client.Sincere.not_superseded (sincere : client.Sincere) {action : TypedAction π}
    (sender : client.canceller = some action) :
    action.superseded = false := by
  have silent : action.Aware ∧ action.cancels = true := by
    have phase := sincere.phase
    unfold Client.canceller at sender
    split at sender
    · next queue cancelling =>
      rw [cancelling] at phase
      exact ⟨sincere.current action sender, phase.2 action sender⟩
    · next destroying =>
      cases sender
      rwa [destroying] at phase
    · cases sender
  by_contra superseded
  rw [Bool.not_eq_false] at superseded
  have cancels := silent.2
  simp only [TypedAction.cancels, silent.1 superseded, Bool.not_true, Bool.and_false,
    Bool.false_and, Bool.false_eq_true] at cancels

/-- In every run that meets the condition, a goal with run 0 that a step puts on the
queue is the cancel of an action that has not seen a foreign value, if it is not the
start of an action whose run value happens to be 0.

Proof: by induction on the run an action that saw a foreign value is interrupted
(`Sincere`), and an interrupted one is not cancelled. -/
theorem superseded_action_never_cancels (pids : ι → UInt32) {events : List (CrowdEvent ι π)}
    {event : CrowdEvent ι π} {goal : Goal π}
    (run : Run TimelyStep (Crowd.start π pids) events crowd) (step : CrowdStep crowd event after)
    (new : goal ∈ after.goals.drop crowd.goals.length) (zero : goal.run = 0) :
    ∃ name accepted, event = .caller name (.queue (.sendGoal accepted)) ∧
      ((∃ action, (crowd.callers name).client.canceller = some action ∧
          action.superseded = false) ∨
        ∃ action, (crowd.callers name).client.phase = .sendingStart ∧
          (crowd.callers name).client.current = some action ∧ action.runValue = 0) := by
  have sincere := run.invariant (start_sincere pids) fun _ _ _ => timelyStep_sincere
  cases event with
  | actor event =>
    obtain ⟨_, _, rfl⟩ := map_eq_some_iff.mp step
    rw [List.drop_length] at new
    cases new
  | caller name event =>
    obtain ⟨⟨caller, sent⟩, stepped, rfl⟩ := map_eq_some_iff.mp step
    rw [List.drop_left] at new
    obtain ⟨accepted, client, rfl, sending⟩ := Caller.step_sends stepped new
    refine ⟨name, accepted, rfl, ?_⟩
    rcases sendGoal_zero sending new zero with ⟨action, sender⟩ | started
    · exact .inl ⟨action, sender, (sincere name).client.not_superseded sender⟩
    · exact .inr started

instance seenInTimeDecidable (crowd : Crowd ι π) :
    (event : CrowdEvent ι π) → Decidable (SeenInTime crowd event)
  | .caller name event =>
    inferInstanceAs (Decidable ((crowd.callers name).SeesInTime crowd.statuses event))
  | .actor _ => isTrue trivial

/-- The steps that meet the condition, as a function. -/
def Crowd.timelyStep (crowd : Crowd ι π) (event : CrowdEvent ι π) : Option (Crowd ι π) :=
  if SeenInTime crowd event then crowd.step event else none

theorem timelyStep_of_some (crowd : Crowd ι π) (event : CrowdEvent ι π) (after : Crowd ι π)
    (taken : crowd.timelyStep event = some after) : TimelyStep crowd event after := by
  unfold Crowd.timelyStep at taken
  split at taken
  · next seen => exact ⟨taken, seen⟩
  · cases taken

end Crowds

/-- Two clients with different process ids. -/
def twoPids (second : Bool) : UInt32 := if second then 2 else 1

/-- The actor sends a status: at its start that nothing runs, later that the next goal does. -/
def actorTurn : List (CrowdEvent Bool Nat) := [.actor .fetchGoal, .actor (.sendStatus true)]

/-- A client starts an action. -/
def starting (second : Bool) : List (CrowdEvent Bool Nat) :=
  [.caller second (.queue (.create 0)), .caller second (.queue (.enqueueAction 0)),
    .caller second (.queue (.sendGoal true)), .caller second (.queue .fetchStatus)]

/-- A client looks at the status in its tick. -/
def looking (second : Bool) : List (CrowdEvent Bool Nat) :=
  [.caller second (.queue .tick), .caller second (.queue .fetchStatus)]

/-- Both clients start an action. The second client's, which has not started, sees the first
client's running, and the first client cancels. -/
def seenInTimeEvents : List (CrowdEvent Bool Nat) :=
  actorTurn ++ starting false ++ starting true ++ actorTurn ++ looking true ++ looking false ++
    [.caller false (.queue .fetchStatus), .caller false (.queue .cancelCurrentAction)]

/-- The condition holds of a run in which an action has seen a foreign value and the client of
the running one cancels. -/
theorem superseded_action_never_cancels_sample : ∃ events, ∃ crowd after : Crowd Bool Nat,
    Run TimelyStep (Crowd.start Nat twoPids) events crowd ∧
      (crowd.callers true).client.current.map TypedAction.superseded = some true ∧
      CrowdStep crowd (.caller false (.queue (.sendGoal true))) after ∧
      after.goals.drop crowd.goals.length = [⟨0, 0⟩] ∧
      ∃ action, (crowd.callers false).client.canceller = some action ∧
        action.superseded = false := by
  have executed : ((seenInTimeEvents.foldlM Crowd.timelyStep (.start Nat twoPids)).bind
      fun crowd => (crowd.step (.caller false (.queue (.sendGoal true)))).map fun after =>
          (after.goals.drop crowd.goals.length, (crowd.callers false).client.phase,
            (crowd.callers true).client.current.map TypedAction.superseded)) =
      some ([⟨0, 0⟩], .cancelling none, some true) := by
    decide
  obtain ⟨crowd, reached, continued⟩ := bind_eq_some_iff.mp executed
  obtain ⟨after, step, values⟩ := map_eq_some_iff.mp continued
  obtain ⟨new, rest⟩ := Prod.mk.inj values
  obtain ⟨phase, seen⟩ := Prod.mk.inj rest
  have run := Run.of_foldlM timelyStep_of_some (.nil _) _ reached
  refine ⟨_, crowd, after, run, seen, step, new, ?_⟩
  have mem : (⟨0, 0⟩ : Goal Nat) ∈ after.goals.drop crowd.goals.length := by
    rw [new]
    exact List.mem_cons_self
  obtain ⟨name, accepted, same, sender | ⟨_, starting, _⟩⟩ :=
    superseded_action_never_cancels twoPids run step mem rfl
  · cases same
    exact sender
  · cases same
    cases phase.symm.trans starting

/-- The second client's action replaces the first client's, and the first client sees
the foreign value in its next tick. -/
def replacedEvents : List (CrowdEvent Bool Nat) :=
  actorTurn ++ starting false ++ actorTurn ++ looking false ++
    [.caller false (.queue .fetchStatus)] ++ starting true ++
    [.actor .fetchGoal, .actor (.finish true), .actor (.sendStatus true)] ++ looking false

/-- The first client's action has seen that the second's is running, and its destructor
sends a cancel while the actor runs the second's. -/
theorem superseded_action_cancels : ∃ events action, ∃ crowd after : Crowd Bool Nat,
    Run CrowdStep (Crowd.start Nat twoPids) events crowd ∧
      (crowd.callers false).client.canceller = some action ∧ action.superseded = true ∧
      CrowdStep crowd (.caller false (.queue (.sendGoal true))) after ∧
      after.goals.drop crowd.goals.length = [⟨0, 0⟩] ∧
      after.actor.executing = (after.callers true).client.current.map TypedAction.runValue := by
  have executed : ((replacedEvents.foldlM Crowd.step (.start Nat twoPids)).bind fun crowd =>
      (crowd.callers false).client.canceller.bind fun action =>
        (crowd.step (.caller false (.queue (.sendGoal true)))).map fun after =>
          (action.superseded, after.goals.drop crowd.goals.length,
            decide (after.actor.executing =
              (after.callers true).client.current.map TypedAction.runValue))) =
      some (true, [⟨0, 0⟩], true) := by
    decide
  obtain ⟨crowd, reached, continued⟩ := bind_eq_some_iff.mp executed
  obtain ⟨action, sender, sends⟩ := bind_eq_some_iff.mp continued
  obtain ⟨after, step, values⟩ := map_eq_some_iff.mp sends
  obtain ⟨superseded, rest⟩ := Prod.mk.inj values
  obtain ⟨new, running⟩ := Prod.mk.inj rest
  have run : Run CrowdStep _ _ crowd :=
    .of_foldlM (fun _ _ _ taken => taken) (.nil _) _ reached
  exact ⟨_, action, crowd, after, run, sender, superseded, step, new, of_decide_eq_true running⟩

end Miranda.Actions
