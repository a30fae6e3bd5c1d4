import Miranda.Actions.Queueing

/-!
# One action at a time

The invariant behind the order of the actions. The current action has been started and
was never dropped; the next one has done nothing yet; and the action that was started last
is answered, or it is the current one and its destructor will cancel it.
-/

namespace Miranda.Actions

open Histories List Option

variable {π : Type}

/-- An action that has done nothing but wait. -/
structure Waiting (queue : ActionQueue π) (entry : Entry π) : Prop where
  known : entry.id < queue.count
  unsent : entry.action.sentStarted = false
  fresh : entry.action.interrupted = false ∧ entry.action.sentCancel = false
  unstarted : .startCalled entry.id ∉ queue.history
  kept : .dropped entry.id ∉ queue.history
  silent : ∀ act ∈ queue.history, act.sender ≠ some entry.id

/-- The action that was started last is answered, or it is `owner` and will be cancelled. -/
def Covered (owner : Option (Entry π)) (history : List (Act π)) : Prop :=
  ∀ first since, Latest Act.starts history first since →
    Answered first since ∨
      ∃ entry, owner = some entry ∧ entry.id = first ∧ entry.action.cancels = true

structure Ordered (queue : ActionQueue π) : Prop where
  known : ∀ act ∈ queue.history, ∀ id, act.id = some id → id < queue.count
  starts : Always StartInOrder queue.history
  goals : Always GoalInOrder queue.history
  silent : ∀ id, .dropped id ∈ queue.history → ∀ act ∈ queue.history, act.sender ≠ some id
  current : ∀ entry, queue.current = some entry →
    .startCalled entry.id ∈ queue.history ∧ .dropped entry.id ∉ queue.history
  next : ∀ entry, queue.next = some entry → Waiting queue entry
  covered : Covered queue.current queue.history
  /-- There is no next action without a current one. -/
  empty : queue.current = none → queue.next = none

variable {queue : ActionQueue π} {act : Act π} {history : List (Act π)} {owner : Option (Entry π)}
  {entry : Entry π}

theorem Ordered.oneAtATime (ordered : Ordered queue) :
    OneAtATime queue :=
  { ordered with
    single _ next _ waiting both := (ordered.next next waiting).unstarted both.2 }

theorem ordered_initial : Ordered ({} : ActionQueue π) where
  known := by simp
  starts := always_nil
  goals := always_nil
  silent := by simp
  current := by simp
  next := by simp
  covered := by
    rintro first since ⟨before, entry, split, -⟩
    simp at split
  empty _ := rfl

/-! ## One more entry in the history -/

theorem Answered.snoc {id : Nat} {since : List (Act π)} (answered : Answered id since)
    (act : Act π) : Answered id (since ++ [act]) := by
  rcases answered with ⟨goal, accepted, member, run⟩ | member
  · exact .inl ⟨goal, accepted, mem_append_left _ member, run⟩
  · exact .inr (mem_append_left _ member)

/-- An entry that is not a start goal leaves the last start covered. -/
theorem Covered.snoc (covered : Covered owner history) (other : act.starts = none) :
    Covered owner (history ++ [act]) := by
  intro first since latest
  rcases latest_snoc.mp latest with ⟨-, same⟩ | ⟨rest, rfl, -, earlier⟩
  · rw [other] at same
    cases same
  · exact (covered first rest earlier).imp_left fun answered => answered.snoc act

/-- An entry that answers the owner leaves the last start covered without it. -/
theorem Covered.answer {other : Option (Entry π)} (covered : Covered owner history)
    (none : act.starts = none) (answers : ∀ entry, owner = some entry → Answered entry.id [act]) :
    Covered other (history ++ [act]) := by
  intro first since latest
  left
  rcases latest_snoc.mp latest with ⟨-, same⟩ | ⟨rest, rfl, -, earlier⟩
  · rw [none] at same
    cases same
  · rcases covered first rest earlier with answered | ⟨entry, has, rfl, -⟩
    · exact answered.snoc act
    · rcases answers entry has with ⟨goal, accepted, member, run⟩ | member
      · exact .inl ⟨goal, accepted, mem_append_right _ member, run⟩
      · exact .inr (mem_append_right _ member)

theorem Waiting.note (waiting : Waiting queue entry) (unstarted : act ≠ .startCalled entry.id)
    (kept : act ≠ .dropped entry.id) (silent : act.sender ≠ some entry.id) :
    Waiting (queue.note [act]) entry :=
  { waiting with
    unstarted := by simp [ActionQueue.note, waiting.unstarted, unstarted.symm]
    kept := by simp [ActionQueue.note, waiting.kept, kept.symm]
    silent := forall_mem_append.mpr ⟨waiting.silent, forall_mem_singleton.mpr silent⟩ }

/-- Acts that neither start, send nor drop. -/
def Act.Idle : Act π → Prop
  | .called => True
  | .queued _ => True
  | .answered _ _ => True
  | .interrupted _ => True
  | _ => False

theorem Act.Idle.facts (idle : act.Idle) :
    act.starts = none ∧ act.sender = none ∧ (∀ id, act ≠ .startCalled id) ∧
      ∀ id, act ≠ .dropped id := by
  cases act <;> simp_all [Act.Idle, Act.starts, Act.sender]

/-- An entry about a known action keeps all actions of the history known. -/
theorem Ordered.known_snoc (ordered : Ordered queue)
    (known : ∀ id, act.id = some id → id < queue.count) :
    ∀ other ∈ queue.history ++ [act], ∀ id, other.id = some id → id < queue.count :=
  forall_mem_append.mpr ⟨ordered.known, forall_mem_singleton.mpr known⟩

/-- An entry that drops nothing, and that no dropped action sends, keeps those silent. -/
theorem Ordered.silent_snoc (ordered : Ordered queue) (kept : ∀ id, act ≠ .dropped id)
    (sender : ∀ id, act.sender = some id → .dropped id ∉ queue.history) :
    ∀ id, .dropped id ∈ queue.history ++ [act] →
      ∀ other ∈ queue.history ++ [act], other.sender ≠ some id := by
  intro id member other inside
  have dropped : .dropped id ∈ queue.history := by simpa [(kept id).symm] using member
  rcases mem_append.mp inside with old | new
  · exact ordered.silent id dropped other old
  · rw [mem_singleton.mp new]
    exact fun sends => sender id sends dropped

theorem Ordered.note (ordered : Ordered queue) (idle : act.Idle)
    (known : ∀ id, act.id = some id → id < queue.count) :
    Ordered (queue.note [act]) := by
  obtain ⟨starts, sender, unstarted, kept⟩ := idle.facts
  exact
    { known := ordered.known_snoc known
      starts := always_snoc.mpr
        ⟨ordered.starts, fun id same => absurd same (unstarted id)⟩
      goals := always_snoc.mpr ⟨ordered.goals, fun some => by simp [starts] at some⟩
      silent := ordered.silent_snoc kept fun id sends => by simp [sender] at sends
      current := by
        intro entry has
        obtain ⟨started, present⟩ := ordered.current entry has
        exact ⟨mem_append_left _ started, by
          simpa [ActionQueue.note, (kept _).symm] using present⟩
      next := by
        intro entry has
        exact (ordered.next entry has).note (unstarted _) (kept _) (by simp [sender])
      covered := ordered.covered.snoc starts
      empty := ordered.empty }

/-! ## The updates -/

section

variable (ordered : Ordered queue)
include ordered

/-- The current action sends a goal. -/
theorem Ordered.sends (has : queue.current = some entry)
    (sender : Entry π) (same : sender.id = entry.id) (act : Act π)
    (sends : act.sender = some entry.id) (goal : GoalInOrder queue.history act)
    (covered : Covered (some sender) (queue.history ++ [act])) :
    Ordered ({ queue with current := some sender }.note [act]) := by
  obtain ⟨started, present⟩ := ordered.current entry has
  have other : act.id = some entry.id ∧ (∀ id, act ≠ .startCalled id) ∧
      ∀ id, act ≠ .dropped id := by
    cases act <;> simp_all [Act.sender, Act.id]
  obtain ⟨own, unstarted, kept⟩ := other
  exact
    { known := by
        apply ordered.known_snoc
        rw [own]
        rintro id ⟨⟩
        exact ordered.known _ started _ rfl
      starts := always_snoc.mpr ⟨ordered.starts, fun id eq => absurd eq (unstarted id)⟩
      goals := always_snoc.mpr ⟨ordered.goals, goal⟩
      silent := by
        apply ordered.silent_snoc kept
        rw [sends]
        rintro id ⟨⟩
        exact present
      current := by
        rintro _ ⟨⟩
        rw [same]
        exact ⟨mem_append_left _ started, by
          simpa [ActionQueue.note, (kept _).symm] using present⟩
      next := by
        intro next waits
        have waiting := ordered.next next waits
        have differs : entry.id ≠ next.id := by
          intro same
          exact waiting.unstarted (same ▸ started)
        have noted : Waiting _ next :=
          waiting.note (unstarted _) (kept _) (by simpa [sends] using differs)
        exact { noted with }
      covered := covered
      empty := nofun }

/-- What the current action learns is in the history, or does not change whether it will be
cancelled. -/
theorem Ordered.setCurrent {owner : Entry π}
    (has : queue.current = some entry) (same : owner.id = entry.id)
    (covered : Covered (some owner) queue.history) :
    Ordered { queue with current := some owner } :=
  { ordered with
    current := by
      rintro _ ⟨⟩
      rw [same]
      exact ordered.current entry has
    next next waits := { ordered.next next waits with }
    covered := covered
    empty := nofun }

/-- An action that is current and not to be cancelled is gone, and the next one is taken out. -/
theorem Ordered.emptied (has : queue.current = some entry)
    (quiet : entry.action.cancels = false) :
    Ordered { queue with current := none, next := none } :=
  { ordered with
    current := nofun
    next := nofun
    covered := by
      intro first since latest
      refine (ordered.covered first since latest).imp_right ?_
      rintro ⟨owner, owns, -, cancels⟩
      obtain rfl : owner = entry := some.inj (owns.symm.trans has)
      rw [quiet] at cancels
      cases cancels
    empty _ := rfl }

/-- An action that waits may become the next one. -/
theorem Ordered.setNext (busy : queue.current ≠ none)
    (waiting : Waiting queue entry) :
    Ordered { queue with next := some entry } :=
  { ordered with
    next := by
      rintro _ ⟨⟩
      exact { waiting with }
    empty idle := absurd idle busy }

/-- `Start` is called when there is no current action. -/
theorem Ordered.startCalled (idle : queue.current = none)
    (waiting : Waiting queue entry)
    (stopped : .queued entry.id ∈ queue.history → JustStopped queue.history) :
    Ordered ({ queue with current := some entry }.note [.startCalled entry.id]) where
  known := by
    apply ordered.known_snoc
    rintro id ⟨⟩
    exact waiting.known
  starts := by
    refine always_snoc.mpr ⟨ordered.starts, ?_⟩
    rintro id ⟨⟩
    exact ⟨waiting.unstarted, stopped⟩
  goals := always_snoc.mpr ⟨ordered.goals, by rintro ⟨⟩⟩
  silent := ordered.silent_snoc nofun nofun
  current := by
    rintro _ ⟨⟩
    exact ⟨by simp [ActionQueue.note], by simpa [ActionQueue.note] using waiting.kept⟩
  next := by
    intro next waits
    have none := ordered.empty idle
    rw [show queue.next = some next from waits] at none
    cases none
  covered := by
    have alone := ordered.covered
    rw [idle] at alone
    intro first since latest
    rcases alone.snoc rfl first since latest with answered | ⟨owner, owns, -⟩
    · exact .inl answered
    · cases owns
  empty := nofun

end

/-! ## What the calls are made of -/

/-- What `DoRunning` leaves alone. -/
theorem TypedAction.doRunning_fst (action : TypedAction π) (status : Option Status)
    (fetched : List Status) :
    (action.doRunning status fetched).1.sentStarted = action.sentStarted ∧
      (action.doRunning status fetched).1.sentCancel = action.sentCancel ∧
      (action.interrupted = true → (action.doRunning status fetched).1.interrupted = true) := by
  have loop : ∀ action : TypedAction π,
      let after := fetched.foldl
        (fun action status => (action.observe (some status)).checkStarted (some status)) action
      after.sentStarted = action.sentStarted ∧ after.sentCancel = action.sentCancel ∧
        (action.interrupted = true → after.interrupted = true) := by
    induction fetched with
    | nil => exact fun action => ⟨rfl, rfl, id⟩
    | cons first rest ih =>
      intro action
      obtain ⟨sent, cancelled, interrupted⟩ :=
        ih _
      have one : ∀ action : TypedAction π,
          (action.checkStarted (some first)).sentStarted = action.sentStarted ∧
            (action.checkStarted (some first)).sentCancel = action.sentCancel ∧
            (action.interrupted = true →
              (action.checkStarted (some first)).interrupted = true) := by
        intro action
        simp only [checkStarted]
        split_ifs <;> simp
      obtain ⟨sentOne, cancelledOne, interruptedOne⟩ := one _
      exact ⟨sent.trans sentOne, cancelled.trans cancelledOne,
        fun before => interrupted (interruptedOne before)⟩
  rw [doRunning]
  split_ifs
  · exact ⟨rfl, rfl, id⟩
  · exact ⟨rfl, rfl, id⟩
  · exact loop action

section

variable (ordered : Ordered queue)
include ordered

/-- The start goal leaves the action to be cancelled by its destructor. -/
theorem Ordered.start (idle : queue.current = none)
    (waiting : Waiting queue entry)
    (stopped : .queued entry.id ∈ queue.history → JustStopped queue.history) (outcome : Outcome) :
    Ordered (queue.start outcome entry) := by
  have called := ordered.startCalled idle waiting stopped
  cases holds : entry.action.holdsGoal with
  | false => simpa [ActionQueue.start, TypedAction.doStart, holds] using called
  | true =>
    let goal : Goal π := ⟨entry.action.runValue, entry.action.params⟩
    let started : Entry π :=
      ⟨entry.id, (entry.action.started outcome.start).recordOld outcome.old⟩
    have quiet : entry.action.cancels = false := by
      simp [TypedAction.cancels, waiting.unsent]
    have sent : Ordered
        ({ { queue with current := some entry }.note [.startCalled entry.id] with
          current := some started }.note [.sentStart entry.id goal outcome.start]) := by
      refine called.sends rfl started rfl _ rfl ?_ ?_
      · intro _ first since latest
        rcases called.covered first since latest with answered | ⟨owner, owns, -, cancels⟩
        · exact answered
        · obtain rfl : owner = entry := (some.inj owns).symm
          rw [quiet] at cancels
          cases cancels
      · intro first since latest
        rcases latest_snoc.mp latest with ⟨-, first⟩ | ⟨rest, -, other, -⟩
        · refine .inr ⟨started, rfl, some.inj first, ?_⟩
          simp [started, TypedAction.cancels, TypedAction.recordOld, TypedAction.started,
            waiting.fresh]
        · cases other
    simpa [ActionQueue.start, TypedAction.doStart, holds, ActionQueue.note] using sent

/-- The current action has looked at the status. An interruption is in the history. -/
theorem Ordered.observed (has : queue.current = some entry)
    (status : Option Status) (fetched : List Status) :
    Ordered (queue.observed entry (entry.action.doRunning status fetched).1) := by
  obtain ⟨sent, cancelled, interrupted⟩ := entry.action.doRunning_fst status fetched
  generalize (entry.action.doRunning status fetched).1 = after at *
  obtain ⟨started, -⟩ := ordered.current entry has
  cases learns : after.interrupted && !entry.action.interrupted with
  | true =>
    have noted : Ordered (queue.note [.interrupted _]) :=
      ordered.note trivial (by rintro id ⟨⟩; exact ordered.known _ started _ rfl)
    have result : Ordered { queue.note [.interrupted entry.id] with
        current := some ⟨entry.id, after⟩ } := by
      refine noted.setCurrent has rfl (ordered.covered.answer rfl ?_)
      intro owner owns
      obtain rfl : owner = entry := some.inj (owns.symm.trans has)
      exact .inr (mem_singleton_self _)
    simpa [ActionQueue.observed, learns, ActionQueue.note] using result
  | false =>
    have same : after.cancels = entry.action.cancels := by
      have interruptedSame : after.interrupted = entry.action.interrupted := by
        cases before : entry.action.interrupted with
        | true => exact interrupted before
        | false => simpa [before] using learns
      simp only [TypedAction.cancels, sent, cancelled, interruptedSame]
    have result : Ordered { queue with current := some ⟨entry.id, after⟩ } := by
      refine ordered.setCurrent has rfl ?_
      intro first since latest
      refine (ordered.covered first since latest).imp_right ?_
      rintro ⟨owner, owns, id, cancels⟩
      obtain rfl : owner = entry := some.inj (owns.symm.trans has)
      exact ⟨⟨owner.id, after⟩, rfl, id, same.trans cancels⟩
    simpa [ActionQueue.observed, learns, ActionQueue.note] using result

/-- Making room for a new action. -/
theorem Ordered.grow :
    Ordered { queue with count := queue.count + 1 } :=
  { ordered with
    known act member id known := Nat.lt_succ_of_lt (ordered.known act member id known)
    next entry waits :=
      { ordered.next entry waits with known := Nat.lt_succ_of_lt (ordered.next entry waits).known } }

/-- Nothing in the history is about an action that is enqueued only now. -/
theorem Ordered.absent (new : act.id = some queue.count) :
    act ∉ queue.history :=
  fun member => Nat.lt_irrefl _ (ordered.known act member _ new)

theorem Ordered.waiting_new (runValue : UInt32) (params : π)
    (holdsGoal : Bool) :
    Waiting { queue with count := queue.count + 1 }
      ⟨queue.count, { runValue, params, holdsGoal }⟩ where
  known := Nat.lt_succ_self _
  unsent := rfl
  fresh := ⟨rfl, rfl⟩
  unstarted := ordered.absent rfl
  kept := ordered.absent rfl
  silent act member sends := by
    have own : act.id = some queue.count := by
      cases act <;> simp_all [Act.sender, Act.id]
    exact ordered.absent own member

end

/-! ## The calls -/

section Calls

variable [Inhabited π]

theorem TypedAction.doCancel_cancels (action : TypedAction π) (id : Nat) (accepted : Bool) :
    (action.doCancel id accepted).1.cancels = false := by
  cases cancels : action.cancels with
  | true =>
    rw [doCancel, if_pos cancels]
    simp [TypedAction.cancels]
  | false => simp [doCancel, cancels]

variable {queue : ActionQueue π} {entry : Entry π}

/-- The current action is cancelled, by `Cancel` or by its destructor. -/
theorem Ordered.cancelled (ordered : Ordered queue) (has : queue.current = some entry)
    (accepted : Bool) :
    Ordered ({ queue with current := some ⟨entry.id, (entry.action.doCancel entry.id accepted).1⟩
      }.note (entry.action.doCancel entry.id accepted).2) := by
  cases cancels : entry.action.cancels with
  | false =>
    have same : { queue with current := some entry } = queue := by rw [← has]
    simpa [TypedAction.doCancel, cancels, ActionQueue.note, same] using ordered
  | true =>
    simp only [TypedAction.doCancel, cancels, if_true]
    refine ordered.sends has ⟨entry.id, { entry.action with sentCancel := true }⟩ rfl
      _ rfl ?_
      (ordered.covered.answer rfl ?_)
    · rintro ⟨⟩
    · intro owner owns
      obtain rfl : owner = entry := some.inj (owns.symm.trans has)
      exact .inl ⟨_, _, mem_singleton_self _, rfl⟩

theorem Ordered.cancelCurrentAction (ordered : Ordered queue) (outcome : Outcome) :
    Ordered (queue.cancelCurrentAction outcome) := by
  cases has : queue.current with
  | none =>
    rw [ActionQueue.cancelCurrentAction, has]
    exact ordered
  | some entry =>
    rw [ActionQueue.cancelCurrentAction, has]
    exact ordered.cancelled has _

theorem Ordered.dropNext (ordered : Ordered queue) (outcome : Outcome) :
    Ordered (queue.dropNext outcome) := by
  cases waits : queue.next with
  | none =>
    rw [ActionQueue.dropNext, waits]
    exact ordered
  | some entry =>
    have waiting := ordered.next entry waits
    have quiet : (entry.action.doCancel entry.id outcome.destroy).2 = [] := by
      simp [TypedAction.doCancel, TypedAction.cancels, waiting.unsent]
    simp only [ActionQueue.dropNext, waits, ActionQueue.destroy, quiet, ActionQueue.note,
      append_nil]
    exact
      { known := by
          apply ordered.known_snoc
          rintro id ⟨⟩
          exact waiting.known
        starts := always_snoc.mpr ⟨ordered.starts, by rintro id ⟨⟩⟩
        goals := always_snoc.mpr ⟨ordered.goals, by rintro ⟨⟩⟩
        silent := by
          intro id member act inside
          rcases mem_append.mp inside with old | new
          · rcases mem_append.mp member with dropped | dropped
            · exact ordered.silent id dropped act old
            · obtain rfl : id = entry.id := by simpa using dropped
              exact waiting.silent act old
          · rw [mem_singleton.mp new]
            nofun
        current := by
          intro owner owns
          obtain ⟨started, present⟩ := ordered.current owner owns
          refine ⟨mem_append_left _ started, ?_⟩
          have differs : owner.id ≠ entry.id := by
            intro same
            exact waiting.unstarted (same ▸ started)
          simpa [differs] using present
        next := nofun
        covered := ordered.covered.snoc rfl
        empty _ := rfl }

theorem Ordered.cancelAllActions (ordered : Ordered queue) (outcome : Outcome) :
    Ordered (queue.cancelAllActions outcome) :=
  (ordered.cancelCurrentAction outcome).dropNext outcome

/-- Cancelling does not touch the number of actions. -/
theorem ActionQueue.cancelAllActions_count (queue : ActionQueue π) (outcome : Outcome)
    (count : Nat) :
    { queue with count }.cancelAllActions outcome =
      { queue.cancelAllActions outcome with count } ∧
    (queue.cancelAllActions outcome).count = queue.count ∧
    (queue.current ≠ none → (queue.cancelAllActions outcome).current ≠ none) := by
  obtain ⟨current, next, _, history⟩ := queue
  cases current <;> cases next <;>
    simp [cancelAllActions, cancelCurrentAction, dropNext, destroy, note]

theorem Ordered.enqueueAction (ordered : Ordered queue) (outcome : Outcome) (runValue : UInt32)
    (params : π) (holdsGoal : Bool) :
    Ordered (queue.enqueueAction outcome { runValue, params, holdsGoal }) := by
  by_cases busy : queue.current = none
  · simp only [ActionQueue.enqueueAction, busy, isSome_none, Bool.false_eq_true, if_false]
    refine ordered.grow.start busy (ordered.waiting_new runValue params holdsGoal) ?_ outcome
    exact fun member => absurd member (ordered.absent rfl)
  · obtain ⟨grown, count, still⟩ := queue.cancelAllActions_count outcome _
    have cancelled := ordered.cancelAllActions outcome
    have waiting := cancelled.waiting_new runValue params holdsGoal
    rw [count] at waiting
    have room := cancelled.grow
    rw [count] at room
    simp only [ActionQueue.enqueueAction, isSome_iff_ne_none.mpr busy, if_true]
    rw [← ActionQueue.cancelAllActions, grown]
    refine (room.setNext (still busy) waiting).note trivial ?_
    rintro id ⟨⟩
    exact Nat.lt_succ_self _

/-- The current action has stopped; its destructor runs before the next action is started. -/
theorem Ordered.advance (ordered : Ordered queue) (has : queue.current = some entry)
    {earlier : List (Act π)} (stopped : queue.history = earlier ++ [.answered entry.id false])
    (outcome : Outcome) :
    Ordered (queue.advance outcome entry) := by
  have cancelled := ordered.cancelled has outcome.destroy
  have emptied := cancelled.emptied rfl (entry.action.doCancel_cancels _ _)
  simp only [ActionQueue.advance]
  cases waits : queue.next with
  | none => exact emptied
  | some next =>
    refine emptied.start rfl { cancelled.next next waits with } ?_ outcome
    intro _
    refine ⟨earlier, entry.id, (entry.action.doCancel entry.id outcome.destroy).2, ?_, ?_⟩
    · simp [ActionQueue.note, stopped]
    · intro act member
      cases cancels : entry.action.cancels with
      | true =>
        simp only [TypedAction.doCancel, cancels, if_true, mem_singleton] at member
        exact ⟨_, _, member⟩
      | false => simp [TypedAction.doCancel, cancels] at member

theorem Ordered.tick (ordered : Ordered queue) (outcome : Outcome) :
    Ordered (queue.tick outcome) := by
  cases has : queue.current with
  | none =>
    rw [ActionQueue.tick, has]
    exact ordered
  | some entry =>
    have observed := ordered.observed has outcome.status outcome.fetched
    obtain ⟨started, -⟩ := observed.current _ rfl
    have answered : Ordered
        ((queue.observed entry (entry.action.doRunning outcome.status outcome.fetched).1).note
          [.answered entry.id (entry.action.doRunning outcome.status outcome.fetched).2]) :=
      observed.note trivial (by rintro id ⟨⟩; exact observed.known _ started _ rfl)
    simp only [ActionQueue.tick, has]
    split
    · exact answered
    · next stopped =>
      rw [Bool.not_eq_true] at stopped
      rw [stopped] at answered ⊢
      exact answered.advance rfl rfl outcome

theorem Ordered.step (ordered : Ordered queue) (call : QueueCall π × Outcome) :
    Ordered (queue.step call) := by
  have called : Ordered (queue.note [.called]) := ordered.note trivial nofun
  obtain ⟨call, outcome⟩ := call
  cases call with
  | enqueueAction runValue params holdsGoal =>
    exact called.enqueueAction outcome runValue params holdsGoal
  | cancelCurrentAction => exact called.cancelCurrentAction outcome
  | cancelAllActions => exact called.cancelAllActions outcome
  | tick => exact called.tick outcome

/-- The second action is started in the `Tick` that finds the first one done, behind the cancel
that enqueueing it has sent. -/
example :
    let quiet : Outcome := ⟨true, true, true, none, [], none⟩
    let done : Outcome := ⟨true, true, true, none, [⟨0, 1, true⟩], none⟩
    (([(.enqueueAction 1 () true, quiet), (.enqueueAction 2 () true, quiet), (.tick, done)] :
      List (QueueCall Unit × Outcome)).foldl ActionQueue.step {}).history =
      [.called, .startCalled 0, .sentStart 0 ⟨1, ()⟩ true,
        .called, .sentCancel 0 ⟨0, ()⟩ true, .queued 1,
        .called, .answered 0 false, .startCalled 1, .sentStart 1 ⟨2, ()⟩ true] := by
  decide

end Calls

end Miranda.Actions
