import Miranda.Actions.Orderly
import Miranda.Actions.Reports

/-!
# What the client knows about the actor

`Watches` relates the queues and the actor to the client's reader, its current action
and the run values it has given up: nothing but the current action is outstanding, and
an action that the client takes to have started is either not on the goal queue or
shown by a status the client has read. Each lemma is one thing a client's step can do
to it. The two with an argument are `Watches.check`, where `CheckStarted` reads a
status, and `Watches.discard`, where `Tick` gives the action up.
-/

namespace Miranda.Actions

open Channel Channel.Reader List

variable {π : Type}

structure Watches (goals : List (Goal π)) (statuses : List SentStatus) (actor : Actor π)
    (status : Reader Status) (current : Option (TypedAction π)) (discarded : List UInt32) :
    Prop where
  reading : InStep (statuses.map SentStatus.status) status
  outstanding : ∀ value, MayRun goals actor value →
    current.map TypedAction.runValue = some value
  unread : ∀ entry ∈ statuses.drop status.index, entry.status.running ≠ 0 →
    current.map TypedAction.runValue = some entry.status.running
  owned : ∀ goal ∈ goals, goal.run ≠ 0 → goal.run ∈ discarded ∨
    ∃ action, current = some action ∧ action.sentStarted = true ∧ action.runValue = goal.run
  observed : ∀ action, current = some action → action.hasStarted = true → action.runValue ≠ 0 →
    action.runValue ∉ goals.map Goal.run ∨
      ∃ entry ∈ statuses.take status.index, entry.Shows action.runValue ∧
        (action.interrupted = true → entry.status.running ≠ action.runValue)
  interrupted : ∀ action, current = some action → action.interrupted = true →
    action.hasStarted = true
  settled : ∀ value ∈ discarded, value ≠ 0 →
    value ∉ goals.map Goal.run ∨ ∃ entry ∈ statuses, entry.Shows value

namespace Watches

variable {goals : List (Goal π)} {statuses : List SentStatus} {actor after : Actor π}
  {status : Reader Status} {current : Option (TypedAction π)} {discarded : List UInt32}
  {action : TypedAction π}

theorem start : Watches ([] : List (Goal π)) [] {} {} none [] where
  reading := inStep_start _
  outstanding := by
    rintro value ⟨nonzero, pending | owes⟩
    · cases pending
    · exact absurd owes.symm nonzero
  unread := fun entry mem => by cases mem
  owned := fun goal mem => by cases mem
  observed := fun action found => by cases found
  interrupted := fun action found => by cases found
  settled := fun value mem => by cases mem

theorem inside (watches : Watches goals statuses actor status current discarded) :
    status.index ≤ statuses.length := by
  have inside := watches.reading.inside
  rwa [length_map] at inside

/-- Before the first status, the only request on the queue is the current action's. -/
theorem singleRequest (watches : Watches goals [] actor status current discarded) :
    SingleRequest goals := by
  have owner : ∀ goal ∈ goals, goal.run ≠ 0 →
      ∃ action, current = some action ∧ action.runValue = goal.run := by
    intro goal mem nonzero
    rcases watches.owned goal mem nonzero with given | ⟨action, found, _, same⟩
    · rcases watches.settled _ given nonzero with absent | ⟨entry, none, _⟩
      · exact absurd (mem_map.mpr ⟨goal, mem, rfl⟩) absent
      · cases none
    · exact ⟨action, found, same⟩
  intro first firstMem second secondMem firstNonzero secondNonzero
  obtain ⟨action, found, same⟩ := owner first firstMem firstNonzero
  obtain ⟨other, foundOther, sameOther⟩ := owner second secondMem secondNonzero
  cases Option.some.inj (found.symm.trans foundOther)
  exact same.symm.trans sameOther

section

variable (watches : Watches goals statuses actor status current discarded)
include watches

/-- The actor's steps. A status that announces a value announces the current action. -/
theorem actorMove {sent : List Status} (move : ActorMove goals actor event after sent) :
    Watches goals (statuses ++ sent.map fun status => ⟨status, actor.taken goals⟩) after
      status current discarded where
  reading := by
    rw [map_append]
    exact watches.reading.append _
  outstanding := fun value may => watches.outstanding value (move.mayRun may)
  unread := by
    intro entry mem nonzero
    rw [drop_append_of_le_length watches.inside] at mem
    rcases mem_append.mp mem with before | new
    · exact watches.unread entry before nonzero
    · rcases move.sent_cases with rfl | ⟨status, rfl, statusMove⟩
      · cases new
      · cases mem_singleton.mp new
        apply watches.outstanding
        refine ⟨nonzero, .inr ?_⟩
        simp only [Actor.Owes, statusMove.announces nonzero, true_or]
  owned := watches.owned
  observed := by
    rw [take_append_of_le_length watches.inside]
    exact watches.observed
  interrupted := watches.interrupted
  settled := by
    intro value mem nonzero
    rcases watches.settled value mem nonzero with absent | ⟨entry, sent, showing⟩
    · exact .inl absent
    · exact .inr ⟨entry, mem_append_left _ sent, showing⟩

/-- A goal with run 0, on the queue or refused. -/
theorem sendCancel (reading : InStep goals actor.goal) (accepted : Bool) (params : π) :
    Watches (goals ++ sending accepted ⟨0, params⟩) statuses actor status current discarded := by
  cases accepted with
  | false => rwa [sending, if_neg Bool.false_ne_true, append_nil]
  | true =>
    have absent : ∀ value ≠ 0, value ∉ goals.map Goal.run →
        value ∉ (goals ++ [(⟨0, params⟩ : Goal π)]).map Goal.run := by
      intro value nonzero absent mem
      rw [map_append, mem_append] at mem
      rcases mem with old | new
      · exact absent old
      · exact nonzero (mem_singleton.mp new)
    refine
      { reading := watches.reading
        outstanding := ?_
        unread := watches.unread
        owned := ?_
        observed := fun action found started nonzero =>
          (watches.observed action found started nonzero).imp_left (absent _ nonzero)
        interrupted := watches.interrupted
        settled := fun value mem nonzero =>
          (watches.settled value mem nonzero).imp_left (absent _ nonzero) }
    · intro value may
      rcases mayRun_append reading may with before | zero
      · exact watches.outstanding value before
      · exact absurd zero may.nonzero
    · refine forall_mem_append.mpr ⟨watches.owned, forall_mem_singleton.mpr ?_⟩
      exact absurd rfl

/-- The reader goes forward. -/
theorem fetch {further : Reader Status} (reading : InStep (statuses.map SentStatus.status) further)
    (forward : status.index ≤ further.index) :
    Watches goals statuses actor further current discarded :=
  { watches with
    reading := reading
    unread := fun entry mem => watches.unread entry (drop_subset_drop_left _ forward mem)
    observed := by
      intro action found started nonzero
      rcases watches.observed action found started nonzero with absent | ⟨entry, read, showing⟩
      · exact .inl absent
      · exact .inr ⟨entry, take_subset_take_left _ forward read, showing⟩ }

theorem fetchNext :
    Watches goals statuses actor
      ((status.fetchNext (statuses.map SentStatus.status)).getD status) current discarded := by
  cases taken : status.fetchNext _ with
  | none => exact watches
  | some further =>
    obtain ⟨message, fetched⟩ := fetchNext_fetched taken
    exact watches.fetch fetched.inStep (Nat.le_of_lt fetched.advances)

theorem fetchLatest :
    Watches goals statuses actor
      ((status.fetchLatest (statuses.map SentStatus.status)).getD status) current discarded := by
  cases taken : status.fetchLatest _ with
  | none => exact watches
  | some further =>
    obtain ⟨skipped, message, fetched⟩ := fetchLatest_fetched taken
    exact watches.fetch fetched.inStep (Nat.le_of_lt fetched.advances)

end

variable {changed : TypedAction π}

/-- A change of the current action that keeps its run value. -/
theorem change (watches : Watches goals statuses actor status (some action) discarded)
    (value : changed.runValue = action.runValue)
    (sent : action.sentStarted = true → changed.sentStarted = true)
    (observed : changed.hasStarted = true → changed.runValue ≠ 0 →
      changed.runValue ∉ goals.map Goal.run ∨
        ∃ entry ∈ statuses.take status.index, entry.Shows changed.runValue ∧
          (changed.interrupted = true → entry.status.running ≠ changed.runValue))
    (interrupted : changed.interrupted = true → changed.hasStarted = true) :
    Watches goals statuses actor status (some changed) discarded where
  reading := watches.reading
  outstanding := by
    rw [Option.map_some, value]
    exact watches.outstanding
  unread := by
    rw [Option.map_some, value]
    exact watches.unread
  owned := by
    intro goal mem nonzero
    rcases watches.owned goal mem nonzero with given | ⟨_, found, sentStarted, same⟩
    · exact .inl given
    · cases found
      exact .inr ⟨changed, rfl, sent sentStarted, value.trans same⟩
  observed := by
    rintro _ ⟨⟩
    exact observed
  interrupted := by
    rintro _ ⟨⟩
    exact interrupted
  settled := watches.settled

/-- A change of the current action that these facts do not look at. -/
theorem recore (watches : Watches goals statuses actor status (some action) discarded)
    (value : changed.runValue = action.runValue) (sent : changed.sentStarted = action.sentStarted)
    (started : changed.hasStarted = action.hasStarted)
    (interrupted : changed.interrupted = action.interrupted) :
    Watches goals statuses actor status (some changed) discarded := by
  refine watches.change value sent.trans ?_ ?_
  · rw [value, started, interrupted]
    exact watches.observed action rfl
  · rw [started, interrupted]
    exact watches.interrupted action rfl

/-- An untouched action becomes the current one. -/
theorem adopt (watches : Watches goals statuses actor status none discarded)
    (adopted : Option (TypedAction π)) (fresh : ∀ action, adopted = some action → action.Fresh) :
    Watches goals statuses actor status adopted discarded where
  reading := watches.reading
  outstanding := fun value may => by cases watches.outstanding value may
  unread := fun entry mem nonzero => by cases watches.unread entry mem nonzero
  owned := by
    intro goal mem nonzero
    rcases watches.owned goal mem nonzero with given | ⟨_, found, _⟩
    · exact .inl given
    · cases found
  observed := fun action found started => by
    rw [(fresh action found).hasStarted] at started
    cases started
  interrupted := fun action found interrupted => by
    rw [(fresh action found).interrupted] at interrupted
    cases interrupted
  settled := watches.settled

section Starting

variable (watches : Watches goals statuses actor status (some action) discarded)
  (fresh : action.Fresh) (new : action.runValue ∉ discarded)

include watches fresh new

/-- The run value of an untouched action is not on the queue. -/
theorem absent_of_fresh (nonzero : action.runValue ≠ 0) :
    action.runValue ∉ goals.map Goal.run := by
  intro mem
  obtain ⟨goal, sent, same⟩ := mem_map.mp mem
  rcases watches.owned goal sent (same ▸ nonzero) with given | ⟨_, found, started, _⟩
  · exact new (same ▸ given)
  · cases found
    rw [fresh.sentStarted] at started
    cases started

/-- `DoStart` when the queue refuses the goal. -/
theorem refused : Watches goals statuses actor status (some (action.started false)) discarded := by
  refine watches.change rfl ?_ ?_ ?_
  · exact fun _ => rfl
  · exact fun _ nonzero => .inl (watches.absent_of_fresh fresh new nonzero)
  · exact fun _ => Bool.or_true _

/-- `DoStart` when the goal is on the queue. -/
theorem accepted (reading : InStep goals actor.goal) :
    Watches (goals ++ [⟨action.runValue, action.params⟩]) statuses actor status
      (some (action.started true)) discarded where
  reading := watches.reading
  outstanding := by
    intro value may
    rcases mayRun_append reading may with before | rfl
    · exact watches.outstanding value before
    · rfl
  unread := watches.unread
  owned := by
    intro goal mem nonzero
    rcases mem_append.mp mem with old | isNew
    · rcases watches.owned goal old nonzero with given | ⟨_, found, _, same⟩
      · exact .inl given
      · cases found
        exact .inr ⟨_, rfl, rfl, same⟩
    · cases mem_singleton.mp isNew
      exact .inr ⟨_, rfl, rfl, rfl⟩
  observed := by
    rintro _ ⟨⟩ started
    have unstarted : (action.started true).hasStarted = false := by
      simp only [TypedAction.started, fresh.hasStarted, Bool.not_true, Bool.or_false]
    rw [unstarted] at started
    cases started
  interrupted := by
    rintro _ ⟨⟩ interrupted
    have uninterrupted : (action.started true).interrupted = false := fresh.interrupted
    rw [uninterrupted] at interrupted
    cases interrupted
  settled := by
    intro value mem nonzero
    rcases watches.settled value mem nonzero with absent | shown
    · refine .inl fun present => ?_
      rw [map_append, mem_append] at present
      rcases present with old | isNew
      · exact absent old
      · cases mem_singleton.mp isNew
        exact new mem
    · exact .inr shown

end Starting

/-- `CheckStarted` on the next status. Its last branch is reached with a status that
says nothing is running; that the actor had taken the goal by then is the assumption. -/
theorem check (watches : Watches goals statuses actor status (some action) discarded)
    {entry : SentStatus} (found : statuses[status.index]? = some entry)
    (informed : action.hasStarted = false → entry.status.running = 0 →
      entry.status.lastRunning ≠ action.runValue → action.runValue ∈ entry.taken) :
    Watches goals statuses actor ⟨status.index + 1, some entry.status⟩
      (some (action.checkStarted (some entry.status))) discarded := by
  have next : status.fetchNext (statuses.map SentStatus.status) =
      some ⟨status.index + 1, some entry.status⟩ := by
    rw [Reader.fetchNext, getElem?_map, found]
    rfl
  have watches' := watches.fetchNext
  rw [next] at watches'
  have isUnread : entry ∈ statuses.drop status.index := by
    apply mem_of_getElem? (i := 0)
    rwa [getElem?_drop]
  have isRead : entry ∈ statuses.take (status.index + 1) := by
    apply mem_of_getElem? (i := status.index)
    rwa [getElem?_take_of_lt (Nat.lt_succ_self _)]
  unfold TypedAction.checkStarted
  split
  · exact watches'
  · next notStarted =>
    rw [Bool.not_eq_true] at notStarted
    have uninterrupted : ¬ action.interrupted = true := by
      intro interrupted
      rw [watches.interrupted action rfl interrupted] at notStarted
      cases notStarted
    dsimp only
    split
    · next own =>
      refine watches'.change rfl id (fun _ _ => .inr ⟨entry, isRead, ?_, ?_⟩) (fun _ => rfl)
      · exact own.imp_right fun last => .inl last.2
      · exact fun interrupted => absurd interrupted uninterrupted
    · next notOwn =>
      split
      · exact watches'
      · have other : entry.status.running ≠ action.runValue := fun same => notOwn (.inl same)
        have idle : entry.status.running = 0 := by
          by_contra running
          exact other (Option.some.inj (watches.unread entry isUnread running)).symm
        have taken := informed notStarted idle fun last => notOwn (.inr ⟨idle, last⟩)
        exact watches'.change rfl id
          (fun _ _ => .inr ⟨entry, isRead, .inr (.inr ⟨idle, taken⟩), fun _ => other⟩) (fun _ => rfl)

section GivingUp

variable (watches : Watches goals statuses actor status (some action) discarded)
  (reports : Reports goals statuses actor) (stopped : action.running status.message = false)

include watches stopped

/-- `Running()` returns false only for an action that the client takes to have started,
and then it was interrupted or the status last read does not name it. -/
theorem started_of_stopped : action.hasStarted = true ∧
    (action.interrupted = true ∨
      ∀ message, status.message = some message → message.running ≠ action.runValue) := by
  unfold TypedAction.running at stopped
  split at stopped
  · next interrupted => exact ⟨watches.interrupted action rfl interrupted, .inl interrupted⟩
  · split at stopped
    · cases stopped
    · next started =>
      rw [Bool.not_eq_true', Bool.not_eq_false] at started
      refine ⟨started, .inr fun message held same => ?_⟩
      rw [held, Option.any_some, same, beq_self_eq_true] at stopped
      cases stopped

include reports

/-- An action given up is not outstanding. A status the client has read shows it; were
it outstanding, that status would be the newest one and announce it, and so it would be
the status last read. -/
theorem not_mayRun_of_stopped (nonzero : action.runValue ≠ 0) :
    ¬ MayRun goals actor action.runValue := by
  intro may
  obtain ⟨started, reason⟩ := watches.started_of_stopped stopped
  rcases watches.observed action rfl started nonzero with absent | ⟨entry, read, showing, other⟩
  · exact absent (reports.requested may)
  · obtain ⟨front, last, split⟩ := (eq_nil_or_concat _).resolve_left
      (ne_nil_of_mem read)
    rw [concat_eq_append] at split
    have held : status.message = some last.status := by
      rw [watches.reading.message, ← map_take, split, map_append, map_singleton,
        getLast?_concat]
    have whole : statuses = front ++ last :: statuses.drop status.index := by
      rw [append_cons, ← split, take_append_drop]
    rw [split, mem_append, mem_singleton] at read
    rcases read with earlier | rfl
    · refine reports.ended entry ?_ _ showing may
      rw [whole, dropLast_append_cons]
      exact mem_append_left _ earlier
    · have silent : entry.status.running ≠ action.runValue :=
        reason.elim other fun absent => absent _ held
      cases later : statuses.drop _ with
      | nil =>
        rw [later] at whole
        have newest : statuses.getLast? = some entry := by rw [whole, getLast?_concat]
        exact silent (reports.latest entry newest _ showing may).2
      | cons next rest =>
        refine reports.ended entry ?_ _ showing may
        rw [whole, later, dropLast_append_cons]
        exact mem_append_right _ mem_cons_self

/-- The client has not yet to read a status that announces an action given up. -/
theorem not_unread_of_stopped {entry : SentStatus} (unread : entry ∈ statuses.drop status.index)
    (nonzero : entry.status.running ≠ 0) : entry.status.running ≠ action.runValue := by
  intro same
  obtain ⟨started, _⟩ := watches.started_of_stopped stopped
  rw [same] at nonzero
  rcases watches.observed action rfl started nonzero with absent | ⟨shown, read, showing, _⟩
  · have sent := drop_subset _ _ unread
    exact absent (reports.known entry sent _ nonzero (.inl same))
  · have once := reports.once
    rw [← take_append_drop _ statuses] at once
    have silent := (pairwise_append.mp once).2.2 shown read entry unread
    rw [same] at silent
    exact silent nonzero showing

/-- `Tick` gives the action up. -/
theorem discard :
    Watches goals statuses actor status none (discarded ++ [action.runValue]) where
  reading := watches.reading
  outstanding := by
    intro value may
    cases watches.outstanding value may
    exact absurd may (watches.not_mayRun_of_stopped reports stopped may.nonzero)
  unread := by
    intro entry mem nonzero
    have own := Option.some.inj (watches.unread entry mem nonzero)
    exact absurd own.symm (watches.not_unread_of_stopped reports stopped mem nonzero)
  owned := by
    intro goal mem nonzero
    rcases watches.owned goal mem nonzero with given | ⟨_, found, _, same⟩
    · exact .inl (mem_append_left _ given)
    · cases found
      exact .inl (mem_append_right _ (mem_singleton.mpr same.symm))
  observed := fun action found => by cases found
  interrupted := fun action found => by cases found
  settled := by
    intro value mem nonzero
    rcases mem_append.mp mem with given | isNew
    · exact watches.settled value given nonzero
    · cases mem_singleton.mp isNew
      obtain ⟨started, _⟩ := watches.started_of_stopped stopped
      rcases watches.observed action rfl started nonzero with absent | ⟨entry, read, showing, _⟩
      · exact .inl absent
      · exact .inr ⟨entry, take_subset _ _ read, showing⟩

end GivingUp

end Watches

end Miranda.Actions
