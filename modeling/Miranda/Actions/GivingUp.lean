import Miranda.Lib.Runs
import Miranda.Actions.Watching

/-!
# An action the client gives up does not run

`Tick` gives up an action when `Running()` returns false. The actor must not be running
the action then, and must not come to run it. This fails when `CheckStarted` reads a
status that the actor sent before it had taken the action's goal: the status says that
nothing is running, and the client concludes that somebody else got in the way. With
that excluded, and with fewer than 65536 actions, the property holds in every run.
-/

namespace Miranda.Actions

open Channel Channel.Reader Runs List Option

variable {π : Type}

/-- One step of the exchange. -/
def ExchangeStep [Inhabited π] (exchange : Exchange π) (event : Event π) (after : Exchange π) :
    Prop :=
  exchange.step event = some after

/-- A status that says that nothing is running, read by an action that has not started, was
sent when the actor had taken the action's goal. -/
abbrev Client.ReadsInformed (client : Client π) (statuses : List SentStatus) : Prop :=
  client.phase = .fetchingStarted → ∀ action ∈ client.current,
    ∀ entry ∈ statuses[client.status.index]?, action.hasStarted = false →
      entry.status.running = 0 → entry.status.lastRunning ≠ action.runValue →
        action.runValue ∈ entry.taken

/-- The run value of a new action has not been used, and what is read is informed. -/
def Informed (exchange : Exchange π) : Event π → Prop
  | .client (.create _) => exchange.client.made < 65536
  | .client .fetchStatus => exchange.client.ReadsInformed exchange.statuses
  | _ => True

def InformedStep [Inhabited π] (exchange : Exchange π) (event : Event π) (after : Exchange π) :
    Prop :=
  ExchangeStep exchange event after ∧ Informed exchange event

/-- The invariant of an exchange, with what was given up earlier. -/
structure Held (earlier : List UInt32) (goals : List (Goal π)) (statuses : List SentStatus)
    (actor : Actor π) (client : Client π) : Prop where
  reports : Reports goals statuses actor
  watches : Watches goals statuses actor client.status client.current client.discarded
  orderly : client.Orderly
  kept : earlier ⊆ client.discarded

section ClientSteps

variable {earlier : List UInt32} {goals : List (Goal π)} {statuses : List SentStatus}
  {actor : Actor π} {client after : Client π} {action : TypedAction π}

theorem checkStarted_runValue (action : TypedAction π) (status : Option Status) :
    (action.checkStarted status).runValue = action.runValue := by
  unfold TypedAction.checkStarted
  repeat' split
  all_goals rfl

theorem checkStarted_sentStarted (action : TypedAction π) (status : Option Status) :
    (action.checkStarted status).sentStarted = action.sentStarted := by
  unfold TypedAction.checkStarted
  repeat' split
  all_goals rfl

theorem Reports.sending (reports : Reports goals statuses actor) {goal : Goal π}
    (new : goal.run = 0 ∨ goal.run ∉ goals.map Goal.run) (accepted : Bool) :
    Reports (goals ++ sending accepted goal) statuses actor := by
  cases accepted with
  | false => rwa [Actions.sending, if_neg Bool.false_ne_true, append_nil]
  | true => exact reports.send new

variable {phase : ClientPhase π}

theorem Held.cancel {queue : Option (Option (TypedAction π))}
    (reports : Reports goals statuses actor)
    (watches : Watches goals statuses actor client.status client.current client.discarded)
    (orderly : Client.Orderly { client with phase := .cancelling queue })
    (kept : earlier ⊆ client.discarded) :
    Held earlier goals statuses actor (client.cancel queue) := by
  obtain ⟨next, phase, same, orderly⟩ := orderly.cancel
  rw [same]
  exact ⟨reports, watches, orderly, kept⟩

variable (held : Held earlier goals statuses actor client)
include held

theorem Held.create (few : client.made < 65536)
    (params : π) :
    Held earlier goals statuses actor { client with
      made := client.made + 1
      status := (client.status.fetchLatest (statuses.map SentStatus.status)).getD client.status
      created := client.created ++ [{ runValue := runValue client.pid client.made, params }] } :=
  { held with
    watches := held.watches.fetchLatest
    orderly := held.orderly.create few params _ }

theorem Held.enqueueAction {position : Nat}
    (idle : client.phase = .idle) (found : client.created[position]? = some action) :
    Held earlier goals statuses actor
      ({ client with created := client.created.eraseIdx position }.enqueueAction action) := by
  unfold Client.enqueueAction
  split
  · exact .cancel held.reports held.watches (held.orderly.enqueueNext idle found) held.kept
  · next empty =>
    have none := not_isSome_iff_eq_none.mp empty
    have fresh := held.orderly.created_fresh found
    have watches := held.watches
    rw [none] at watches
    simp only [Client.start, fresh.holdsGoal, if_true]
    refine ⟨held.reports, watches.adopt _ ?_, ?_, held.kept⟩
    · rintro _ ⟨⟩
      exact fresh
    · exact held.orderly.enqueueCurrent idle none found

section

variable (found : client.current = some action)
include found

theorem Held.sent_of_phase
    (phase : client.phase.starting = false) :
    action.sentStarted = true := by
  have shape := held.orderly.current action found
  rwa [phase] at shape

/-- The current action changes in a way that nothing else depends on. -/
theorem Held.recore {changed : TypedAction π}
    (value : changed.runValue = action.runValue)
    (sent : action.sentStarted = true) (same : changed.sentStarted = action.sentStarted)
    (started : changed.hasStarted = action.hasStarted)
    (interrupted : changed.interrupted = action.interrupted)
    (pending : phase.pending = client.phase.pending) (starting : phase.starting = false) :
    Held earlier goals statuses actor { client with current := some changed, phase := phase } :=
  { held with
    watches := by
      have watches := held.watches
      rw [found] at watches
      exact watches.recore value same started interrupted
    orderly := held.orderly.setCurrent _ found value (same.trans sent) pending starting }

/-- A call goes on to another phase. -/
theorem Held.rephase (sent : action.sentStarted = true)
    (pending : phase.pending = client.phase.pending) (starting : phase.starting = false) :
    Held earlier goals statuses actor { client with phase := phase } := by
  have same : Held earlier goals statuses actor _ :=
    held.recore found rfl sent rfl rfl rfl pending starting
  rwa [← found] at same

/-- The end of `DoRunning`: the call returns, or the action is given up. -/
theorem Held.finishTick (sent : action.sentStarted = true)
    (pending : client.phase.pending = []) :
    Held earlier goals statuses actor (client.finishTick action) := by
  unfold Client.finishTick
  split
  · exact held.rephase found sent pending.symm rfl
  · next stopped =>
    rw [Bool.not_eq_true] at stopped
    obtain ⟨phase, nothing, starting, same⟩ := Client.discard_eq held.orderly sent
    have watches := held.watches
    rw [found] at watches
    have given := watches.discard held.reports stopped
    rw [same]
    exact ⟨held.reports, given.adopt _ fun next => held.orderly.next_fresh,
      held.orderly.discard found pending nothing starting, subset_append_of_subset_left _ held.kept⟩

end

/-- `Start` after the destructor of the action before. -/
theorem Held.resume {start : Bool}
    (phase : client.phase = .destroying action start) :
    Held earlier goals statuses actor (client.resume start) := by
  have pending : client.phase.pending = [] := by rw [phase]; rfl
  have starting : client.phase.starting = start := by rw [phase]; rfl
  cases start with
  | false =>
    exact ⟨held.reports, held.watches,
      held.orderly.rephase pending.symm (.inl starting.symm), held.kept⟩
  | true =>
    simp only [Client.resume, if_true]
    unfold Client.start
    split
    · next action found =>
      have shape := held.orderly.current action found
      rw [starting] at shape
      rw [if_pos shape.holdsGoal]
      exact ⟨held.reports, held.watches,
        held.orderly.rephase pending.symm (.inl starting.symm), held.kept⟩
    · next none =>
      exact ⟨held.reports, held.watches, held.orderly.rephase pending.symm (.inr none), held.kept⟩

theorem Held.sendGoal [Inhabited π] {accepted : Bool}
    {sent : List (Goal π)} (taken : client.sendGoal accepted = some (after, sent)) :
    Held earlier (goals ++ sent) statuses actor after := by
  unfold Client.sendGoal at taken
  split at taken
  · next queue action phase found =>
    cases taken
    have sentStarted := held.sent_of_phase found (by rw [phase]; rfl)
    have marked : Held earlier goals statuses actor
        { client with
          current := some { action with sentCancel := true }, phase := .cancelling queue } :=
      held.recore found rfl sentStarted rfl rfl rfl (by rw [phase]) rfl
    rw [Client.setNext_eq]
    · exact ⟨marked.reports.sending (.inl rfl) accepted,
        marked.watches.sendCancel marked.reports.reading accepted default, marked.orderly.setNext,
        held.kept⟩
    · exact fun next => held.orderly.next_fresh
  · next action start _ phase =>
    cases taken
    have resumed := held.resume phase
    exact ⟨resumed.reports.sending (.inl rfl) accepted,
      resumed.watches.sendCancel resumed.reports.reading accepted default, resumed.orderly,
      resumed.kept⟩
  · next action phase found =>
    cases taken
    have fresh : action.Fresh := by
      have shape := held.orderly.current action found
      rwa [phase] at shape
    have new := held.orderly.current_not_discarded found
    have watches := held.watches
    rw [found] at watches
    refine ⟨held.reports.sending ?_ accepted, ?_, ?_, held.kept⟩
    · by_cases zero : action.runValue = 0
      · exact .inl zero
      · exact .inr (watches.absent_of_fresh fresh new zero)
    · cases accepted with
      | false =>
        rw [sending, if_neg Bool.false_ne_true, append_nil]
        exact watches.refused fresh new
      | true => exact watches.accepted fresh new held.reports.reading
    · exact held.orderly.setCurrent _ found rfl rfl (by rw [phase]; rfl) rfl
  · cases taken

theorem Held.fetchStatus (informed : client.ReadsInformed statuses)
    (taken : client.fetchStatus (statuses.map SentStatus.status) = some after) :
    Held earlier goals statuses actor after := by
  have fetched := held.watches.fetchNext
  unfold Client.fetchStatus at taken
  dsimp only at taken
  split at taken
  · next action phase found =>
    cases taken
    have sent := held.sent_of_phase found (by rw [phase]; rfl)
    rw [found] at fetched
    exact ⟨held.reports, fetched.recore rfl rfl rfl rfl,
      held.orderly.setCurrent _ found rfl sent (by rw [phase]; rfl) rfl, held.kept⟩
  · next action phase found =>
    cases taken
    have sent := held.sent_of_phase found (by rw [phase]; rfl)
    rw [found] at fetched
    have observed : Held earlier goals statuses actor
        { client with
          status := (client.status.fetchNext _).getD _
          current := some (action.observe
            ((client.status.fetchNext (statuses.map SentStatus.status)).getD client.status).message) } :=
      ⟨held.reports, fetched.recore rfl rfl rfl rfl,
        held.orderly.setCurrent _ found rfl sent rfl (by rw [phase]; rfl), held.kept⟩
    exact observed.finishTick rfl sent (by rw [phase]; rfl)
  · next action phase found =>
    have sent := held.sent_of_phase found (by rw [phase]; rfl)
    split at taken
    · next status next =>
      cases taken
      obtain ⟨message, isNext, rfl⟩ := map_eq_some_iff.mp next
      rw [getElem?_map] at isNext
      obtain ⟨entry, isEntry, rfl⟩ := map_eq_some_iff.mp isNext
      have watches := held.watches
      rw [found] at watches
      have shown : Watches goals statuses actor _
          (some (action.observe (some entry.status))) _ :=
        watches.recore rfl rfl rfl rfl
      refine ⟨held.reports, shown.check isEntry (informed phase action found entry isEntry), ?_,
        held.kept⟩
      apply held.orderly.setCurrent _ found
      · exact checkStarted_runValue _ _
      · rw [checkStarted_sentStarted]
        exact sent
      · rfl
      · rw [phase]
        rfl
    · cases taken
      exact held.finishTick found sent (by rw [phase]; rfl)
  · cases taken

theorem Held.tick (idle : client.phase = .idle) :
    Held earlier goals statuses actor client.tick := by
  unfold Client.tick
  split
  · exact held
  · next action found =>
    have sent := held.sent_of_phase found (by rw [idle]; rfl)
    have pending : client.phase.pending = [] := by rw [idle]; rfl
    rw [sent, Bool.not_true, if_neg Bool.false_ne_true]
    split
    · exact held.rephase found sent pending.symm rfl
    · exact held.rephase found sent pending.symm rfl

theorem Held.clientStep [Inhabited π]
    {event : ClientEvent π} {sent : List (Goal π)}
    (few : ∀ params, event = .create params → client.made < 65536)
    (informed : event = .fetchStatus → client.ReadsInformed statuses)
    (taken : client.step (statuses.map SentStatus.status) event = some (after, sent)) :
    Held earlier (goals ++ sent) statuses actor after := by
  cases event with
  | create params =>
    obtain ⟨idle, rfl, rfl⟩ := call_inv taken
    rw [append_nil]
    exact held.create (few params rfl) params
  | enqueueAction position =>
    obtain ⟨action, found, called⟩ := bind_eq_some_iff.mp taken
    obtain ⟨idle, rfl, rfl⟩ := call_inv called
    rw [append_nil]
    exact held.enqueueAction idle found
  | cancelCurrentAction | cancelAllActions =>
    obtain ⟨idle, rfl, rfl⟩ := call_inv taken
    rw [append_nil]
    exact .cancel held.reports held.watches (held.orderly.cancelling idle rfl) held.kept
  | tick =>
    obtain ⟨idle, rfl, rfl⟩ := call_inv taken
    rw [append_nil]
    exact held.tick idle
  | sendGoal accepted => exact held.sendGoal taken
  | fetchStatus =>
    obtain ⟨next, fetched, same⟩ := map_eq_some_iff.mp taken
    cases same
    rw [append_nil]
    exact held.fetchStatus (informed rfl) fetched

end ClientSteps

section Runs

variable {earlier : List UInt32} {exchange after : Exchange π}

/-- The invariant of an exchange's two sides and queues. -/
def Exchange.Sound (earlier : List UInt32) (exchange : Exchange π) : Prop :=
  Held earlier exchange.goals exchange.statuses exchange.actor exchange.client

theorem start_sound (pid : UInt32) : (Exchange.start π pid).Sound [] where
  reports :=
    { reading := inStep_start _
      distinct := .nil
      ready := rfl
      silent := fun _ => rfl
      known := fun entry mem => by cases mem
      once := .nil
      ended := fun entry mem => by cases mem
      latest := fun entry newest => by cases newest }
  watches := .start
  orderly := Client.orderly_start pid
  kept := nil_subset _

theorem Exchange.Sound.actorStep (sound : exchange.Sound earlier) {actor : Actor π}
    {sent : List Status}
    {event : ActorEvent} (move : ActorMove exchange.goals exchange.actor event actor sent) :
    Held earlier exchange.goals
      (exchange.statuses ++ sent.map fun status => ⟨status, exchange.actor.taken exchange.goals⟩)
      actor exchange.client := by
  have single : exchange.actor.Starting → SingleRequest exchange.goals := by
    intro starting
    have watches := sound.watches
    rw [sound.reports.silent starting] at watches
    exact watches.singleRequest
  exact ⟨sound.reports.step single move, sound.watches.actorMove move, sound.orderly, sound.kept⟩

theorem informedStep_sound [Inhabited π] {event : Event π} (sound : exchange.Sound earlier)
    (step : InformedStep exchange event after) : after.Sound earlier := by
  obtain ⟨taken, informed⟩ := step
  cases event with
  | client event =>
    obtain ⟨⟨client, sent⟩, stepped, rfl⟩ := map_eq_some_iff.mp taken
    apply Held.clientStep sound _ _ stepped
    · rintro params rfl
      exact informed
    · rintro rfl
      exact informed
  | actor event =>
    obtain ⟨⟨actor, sent⟩, stepped, rfl⟩ := map_eq_some_iff.mp taken
    exact sound.actorStep (step_moves stepped)

/-- What is outstanding is the current action's, so it was not given up. -/
theorem Exchange.Sound.not_executing (sound : exchange.Sound earlier) {value : UInt32}
    (given : value ∈ exchange.client.discarded) : exchange.actor.executing ≠ some value := by
  intro running
  have current := sound.watches.outstanding value (sound.reports.executing running)
  obtain ⟨action, found, rfl⟩ := map_eq_some_iff.mp current
  exact sound.orderly.current_not_discarded found given

end Runs

/-- In every run whose steps meet the condition, once `Tick` has given a started action
up the actor is not running it, and does not run it in any continuation.

Proof: the invariant `Sound` is taken up in the middle with the actions given up so far,
which the rest of the run keeps, and it forbids running them. -/
theorem given_up_never_runs [Inhabited π] (pid : UInt32) {middle final : Exchange π}
    {before after : List (Event π)} {value : UInt32}
    (first : Run InformedStep (Exchange.start π pid) before middle)
    (given : value ∈ middle.client.discarded) (rest : Run InformedStep middle after final) :
    final.actor.executing ≠ some value := by
  have sound : middle.Sound [] :=
    first.invariant (start_sound pid) fun _ _ _ sound step => informedStep_sound sound step
  have still : final.Sound middle.client.discarded :=
    rest.invariant ⟨sound.reports, sound.watches, sound.orderly, Subset.refl _⟩
      fun _ _ _ sound step => informedStep_sound sound step
  exact still.not_executing (still.kept given)

instance informedDecidable [DecidableEq π] (exchange : Exchange π) :
    (event : Event π) → Decidable (Informed exchange event)
  | .client (.create _) => inferInstanceAs (Decidable (exchange.client.made < 65536))
  | .client .fetchStatus =>
    inferInstanceAs (Decidable (exchange.client.ReadsInformed exchange.statuses))
  | .client (.enqueueAction _) => isTrue trivial
  | .client .cancelCurrentAction => isTrue trivial
  | .client .cancelAllActions => isTrue trivial
  | .client .tick => isTrue trivial
  | .client (.sendGoal _) => isTrue trivial
  | .actor _ => isTrue trivial

/-- The actor starts, the client's action runs to its end, and `Tick` gives it up. -/
def finishedEvents : List (Event Nat) :=
  [.actor .fetchGoal, .actor (.sendStatus true), .client (.create 5), .client (.enqueueAction 0),
    .client (.sendGoal true), .client .fetchStatus, .actor .fetchGoal, .actor (.sendStatus true),
    .client .tick, .client .fetchStatus, .client .fetchStatus, .actor (.finish true),
    .actor (.sendStatus true), .client .tick, .client .fetchStatus]

/-- The client then cancels the action it gave up, and the actor waits again. -/
def cancelledEvents : List (Event Nat) :=
  [.client (.sendGoal true), .actor .fetchGoal]

/-- The steps that meet the condition, as a function. -/
def Exchange.informedStep [Inhabited π] [DecidableEq π] (exchange : Exchange π) (event : Event π) :
    Option (Exchange π) :=
  if Informed exchange event then exchange.step event else none

theorem informedStep_of_some [Inhabited π] [DecidableEq π] (exchange : Exchange π)
    (event : Event π) (after : Exchange π) (taken : exchange.informedStep event = some after) :
    InformedStep exchange event after := by
  unfold Exchange.informedStep at taken
  split at taken
  · next informed => exact ⟨taken, informed⟩
  · cases taken

/-- The condition holds of a run in which an action is finished and given up. -/
theorem given_up_never_runs_sample : ∃ before after middle final, ∃ value : UInt32,
    Run InformedStep (Exchange.start Nat 7) before middle ∧ value ∈ middle.client.discarded ∧
      Run InformedStep middle after final ∧ final.actor.executing ≠ some value := by
  have executed : ((finishedEvents.foldlM Exchange.informedStep (.start Nat 7)).bind
      fun middle => (cancelledEvents.foldlM Exchange.informedStep middle).map
        fun _ => middle.client.discarded) = some [458752] := by
    decide
  obtain ⟨middle, reached, continued⟩ := bind_eq_some_iff.mp executed
  obtain ⟨final, finished, discarded⟩ := map_eq_some_iff.mp continued
  have first := Run.of_foldlM informedStep_of_some (.nil _) _ reached
  have rest := Run.of_foldlM informedStep_of_some (.nil _) _ finished
  have given : (458752 : UInt32) ∈ middle.client.discarded := by
    rw [discarded]
    exact mem_cons_self
  exact ⟨_, _, middle, final, 458752, first, given, rest, given_up_never_runs 7 first given rest⟩

/-- The actor is about to send its first status when the client starts an action. -/
def interruptedEvents : List (Event Nat) :=
  [.actor .fetchGoal, .client (.create 5), .client (.enqueueAction 0), .client (.sendGoal true),
    .client .fetchStatus, .actor (.sendStatus true), .client .tick, .client .fetchStatus,
    .client .fetchStatus, .actor .fetchGoal, .actor (.sendStatus true)]

/-- The client gives the action up on reading that status, and the actor then runs it. -/
theorem given_up_action_runs : ∃ events final, ∃ value : UInt32,
    Run ExchangeStep (Exchange.start Nat 7) events final ∧ value ∈ final.client.discarded ∧
      final.actor.executing = some value := by
  have executed : (interruptedEvents.foldlM Exchange.step (.start Nat 7)).map
      (fun exchange => (exchange.client.discarded, exchange.actor.executing)) =
        some ([458752], some 458752) := by
    decide
  obtain ⟨final, reached, values⟩ := map_eq_some_iff.mp executed
  obtain ⟨discarded, running⟩ := Prod.mk.inj values
  have run : Run ExchangeStep _ _ final :=
    .of_foldlM (fun _ _ _ taken => taken) (.nil _) _ reached
  have given : (458752 : UInt32) ∈ final.client.discarded := by
    rw [discarded]
    exact mem_cons_self
  exact ⟨_, final, 458752, run, given, running⟩

end Miranda.Actions
