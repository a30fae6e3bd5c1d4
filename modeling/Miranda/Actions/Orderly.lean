import Mathlib.Data.List.Nodup
import Mathlib.Data.List.Perm.Basic
import Miranda.Actions.Client

/-!
# The actions a client holds

The current action has sent its goal, or is about to; every other action the queue
holds or the caller has created is untouched. All of them, and those given up before,
have different run values, as long as the 16-bit counter has not come round.
-/

namespace Miranda.Actions

open Channel List Option

variable {π : Type}

theorem runValue_mod (pid : UInt32) (made : Nat) :
    (runValue pid made).toNat % 65536 = made % 65536 := by
  have low : ((pid &&& 0xFFFF) <<< 16).toNat % 2 ^ 16 = 0 := by
    simp [Nat.shiftLeft_eq]
  have word : (UInt16.ofNat made).toUInt32.toNat = made % 65536 := by simp
  rw [runValue, UInt32.toNat_or, show 65536 = 2 ^ 16 from rfl, Nat.or_mod_two_pow, low]
  simp

/-- The first 65536 run values of a process are different. -/
theorem runValue_injective {pid : UInt32} {first second : Nat} (firstSmall : first < 65536)
    (secondSmall : second < 65536) (same : runValue pid first = runValue pid second) :
    first = second := by
  have firstMod := runValue_mod pid first
  have secondMod := runValue_mod pid second
  rw [same] at firstMod
  omega

/-- Nothing has been done with the action yet. -/
structure TypedAction.Fresh (action : TypedAction π) : Prop where
  holdsGoal : action.holdsGoal = true
  hasStarted : action.hasStarted = false
  sentStarted : action.sentStarted = false
  interrupted : action.interrupted = false

theorem TypedAction.Fresh.cancels {action : TypedAction π} (fresh : action.Fresh) :
    action.cancels = false := by
  simp only [TypedAction.cancels, fresh.sentStarted, Bool.false_and]

/-- The action that a call in progress will queue. -/
def ClientPhase.pending : ClientPhase π → List (TypedAction π)
  | .cancelling (some (some action)) => [action]
  | _ => []

/-- A call in progress will start the current action. -/
def ClientPhase.starting : ClientPhase π → Bool
  | .sendingStart => true
  | .destroying _ start => start
  | _ => false

namespace Client

/-- The actions that wait behind the current one. -/
def queued (client : Client π) : List (TypedAction π) :=
  client.next.toList ++ client.phase.pending ++ client.created

/-- The run values given up and held. -/
def values (client : Client π) : List UInt32 :=
  client.discarded ++
    (client.current.toList.map TypedAction.runValue ++ client.queued.map TypedAction.runValue)

structure Orderly (client : Client π) : Prop where
  distinct : client.values.Nodup
  numbered : ∀ value ∈ client.values, ∃ number < client.made, value = runValue client.pid number
  fresh : ∀ action ∈ client.queued, action.Fresh
  current : ∀ action, client.current = some action →
    if client.phase.starting then action.Fresh else action.sentStarted = true

variable {client after : Client π} {action : TypedAction π}

theorem orderly_start (pid : UInt32) : ({ pid } : Client π).Orderly where
  distinct := nodup_nil
  numbered := fun value mem => absurd mem not_mem_nil
  fresh := fun action mem => absurd mem not_mem_nil
  current := fun action found => by cases found

section

variable (orderly : client.Orderly)
include orderly

theorem Orderly.next_fresh (found : client.next = some action) :
    action.Fresh := by
  apply orderly.fresh
  rw [queued, found]
  exact mem_append_left _ (mem_append_left _ mem_cons_self)

theorem Orderly.current_not_discarded (found : client.current = some action) :
    action.runValue ∉ client.discarded := by
  intro given
  have disjoint := (nodup_append.mp orderly.distinct).2.2
  refine disjoint _ given _ ?_ rfl
  rw [found]
  exact mem_append_left _ mem_cons_self

/-- The client holds and has given up no run value that it did not before. -/
theorem Orderly.of_count (pid : after.pid = client.pid)
    (made : after.made = client.made)
    (counted : ∀ value, after.values.count value ≤ client.values.count value)
    (fresh : ∀ action ∈ after.queued, action.Fresh)
    (current : ∀ action, after.current = some action →
      if after.phase.starting then action.Fresh else action.sentStarted = true) :
    after.Orderly where
  distinct := by
    apply nodup_iff_count_le_one.mpr
    intro value
    exact Nat.le_trans (counted value) (nodup_iff_count_le_one.mp orderly.distinct value)
  numbered := by
    intro value mem
    rw [pid, made]
    have positive := count_pos_iff.mpr mem
    exact orderly.numbered value (count_pos_iff.mp (Nat.lt_of_lt_of_le positive (counted value)))
  fresh := fresh
  current := current

/-- Creating an action uses a run value that is not in use. -/
theorem Orderly.create (few : client.made < 65536) (params : π)
    (status : Reader Status) :
    Orderly { client with
      made := client.made + 1
      status := status
      created := client.created ++ [{ runValue := runValue client.pid client.made, params }] } := by
  have values : client.values ++ [runValue client.pid client.made] =
      Client.values { client with
        made := client.made + 1
        status := status
        created := client.created ++ [{ runValue := runValue client.pid client.made, params }] } := by
    simp only [Client.values, queued, map_append, map_cons, map_nil, append_assoc]
  have new : runValue client.pid client.made ∉ client.values := by
    intro used
    obtain ⟨number, earlier, same⟩ := orderly.numbered _ used
    have equal := runValue_injective few (Nat.lt_trans earlier few) same
    omega
  constructor
  · rw [← values]
    exact orderly.distinct.append (nodup_singleton _) (by simpa using new)
  · rw [← values]
    refine forall_mem_append.mpr ⟨fun value old => ?_,
      forall_mem_singleton.mpr ⟨client.made, Nat.lt_succ_self _, rfl⟩⟩
    obtain ⟨number, earlier, same⟩ := orderly.numbered value old
    exact ⟨number, Nat.lt_succ_of_lt earlier, same⟩
  · rw [queued, ← append_assoc]
    exact forall_mem_append.mpr
      ⟨orderly.fresh, forall_mem_singleton.mpr ⟨rfl, rfl, rfl, rfl⟩⟩
  · exact orderly.current

end

/-- Assigning `next_action_` sends nothing, as the action replaced was never started. -/
theorem setNext_eq (fresh : ∀ action, client.next = some action → action.Fresh)
    (queue : Option (Option (TypedAction π))) :
    client.setNext queue = { client with next := queue.getD client.next, phase := .idle } := by
  cases queue with
  | none => rfl
  | some next =>
    unfold Client.setNext destroy
    cases found : client.next with
    | none => rfl
    | some action =>
      simp only [(fresh action found).cancels, Bool.false_eq_true, if_false]
      rfl

variable {phase : ClientPhase π} {queue : Option (Option (TypedAction π))}

/-- A new state for the current action, in a phase that does not start it. -/
theorem Orderly.setCurrent (orderly : client.Orderly) {changed : TypedAction π}
    (status : Reader Status) (found : client.current = some action)
    (same : changed.runValue = action.runValue) (sent : changed.sentStarted = true)
    (pending : phase.pending = client.phase.pending) (started : phase.starting = false) :
    Orderly { client with status := status, current := some changed, phase := phase } := by
  refine orderly.of_count rfl rfl ?_ ?_ ?_
  · intro value
    simp only [values, queued, found, pending, toList_some, map_cons, same, Nat.le_refl]
  · intro other mem
    apply orderly.fresh
    rwa [queued, ← pending]
  · intro other isChanged
    cases isChanged
    simp only [started, sent, Bool.false_eq_true, if_false]

/-- A phase that holds the same action back and starts the current one as before. -/
theorem Orderly.rephase (orderly : client.Orderly) (pending : phase.pending = client.phase.pending)
    (starting : phase.starting = client.phase.starting ∨ client.current = none) :
    Orderly { client with phase := phase } := by
  refine orderly.of_count rfl rfl ?_ ?_ ?_
  · intro value
    simp only [values, queued, pending, Nat.le_refl]
  · intro action mem
    apply orderly.fresh
    rwa [queued, ← pending]
  · intro action found
    rcases starting with same | none
    · rw [same]
      exact orderly.current action found
    · cases none.symm.trans found

/-- The state between `current_action_->Cancel()` and the assignment of `next_action_`. -/
theorem Orderly.cancelling (orderly : client.Orderly) (idle : client.phase = .idle)
    (nothing : queue.getD none = none) :
    Orderly { client with phase := .cancelling queue } := by
  have pending : ClientPhase.pending (.cancelling queue) = [] := by
    rcases queue with _ | _ | action
    · rfl
    · rfl
    · cases nothing
  apply orderly.rephase
  · rw [idle, pending]
    rfl
  · rw [idle]
    exact .inl rfl

theorem Orderly.setNext (orderly : Orderly { client with phase := .cancelling queue }) :
    Orderly { client with next := queue.getD client.next, phase := .idle } := by
  refine orderly.of_count rfl rfl ?_ ?_ ?_
  · intro value
    rcases queue with _ | _ | action
    · exact Nat.le_refl _
    · simp only [values, queued, ClientPhase.pending, getD_some, toList_none,
        count_append, map_append, map_nil, count_nil]
      omega
    · simp only [values, queued, ClientPhase.pending, getD_some, toList_some,
        count_append, map_append, map_nil, count_nil]
      omega
  · intro action mem
    apply orderly.fresh
    rcases queue with _ | _ | queued
    · exact mem
    · exact mem_append_right _ mem
    · rcases mem_append.mp mem with next | created
      · exact mem_append_left _ (mem_append_right _ next)
      · exact mem_append_right _ created
  · exact orderly.current

/-- `Cancel` of the current action, sent or not, and the assignment that follows. -/
theorem Orderly.cancel (orderly : Orderly { client with phase := .cancelling queue }) :
    ∃ next phase, client.cancel queue = { client with next := next, phase := phase } ∧
      Orderly { client with next := next, phase := phase } := by
  unfold Client.cancel
  split
  · exact ⟨client.next, .cancelling queue, rfl, orderly⟩
  · exact ⟨_, _, setNext_eq (fun action => orderly.next_fresh) queue, orderly.setNext⟩

section Enqueueing

variable {position : Nat}

theorem count_created (found : client.created[position]? = some action) (value : UInt32) :
    (client.created.map TypedAction.runValue).count value =
      ([action.runValue]).count value +
        ((client.created.eraseIdx position).map TypedAction.runValue).count value := by
  obtain ⟨inside, rfl⟩ := List.getElem?_eq_some_iff.mp found
  have moved := (getElem_cons_eraseIdx_perm inside).map TypedAction.runValue
  rw [← moved.count_eq, map_cons, ← singleton_append, count_append]

theorem Orderly.created_fresh (orderly : client.Orderly)
    (found : client.created[position]? = some action) : action.Fresh :=
  orderly.fresh action (mem_append_right _ (mem_of_getElem? found))

/-- `EnqueueAction` behind a current action. -/
theorem Orderly.enqueueNext (orderly : client.Orderly) (idle : client.phase = .idle)
    (found : client.created[position]? = some action) :
    Orderly { client with
      created := client.created.eraseIdx position
      phase := .cancelling (some (some action)) } := by
  refine orderly.of_count rfl rfl ?_ ?_ ?_
  · intro value
    simp only [values, queued, idle, ClientPhase.pending, count_append, map_append,
      count_created found, map_cons, map_nil, count_nil]
    omega
  · intro other mem
    rcases mem_append.mp mem with early | created
    · rcases mem_append.mp early with next | pending
      · exact orderly.fresh other (mem_append_left _ (mem_append_left _ next))
      · rw [mem_singleton.mp pending]
        exact orderly.created_fresh found
    · exact orderly.fresh other (mem_append_right _ (eraseIdx_subset created))
  · intro other isCurrent
    have shape := orderly.current other isCurrent
    rw [idle] at shape
    exact shape

/-- `EnqueueAction` without a current action. -/
theorem Orderly.enqueueCurrent (orderly : client.Orderly) (idle : client.phase = .idle)
    (none : client.current = none) (found : client.created[position]? = some action) :
    Orderly { client with
      created := client.created.eraseIdx position
      current := some action
      phase := .sendingStart } := by
  refine orderly.of_count rfl rfl ?_ ?_ ?_
  · intro value
    simp only [values, queued, idle, none, ClientPhase.pending, count_append, map_append,
      count_created found, map_cons, map_nil, count_nil, toList_none,
      toList_some]
    omega
  · intro other mem
    rcases mem_append.mp mem with early | created
    · exact orderly.fresh other (mem_append_left _ (by rwa [idle]))
    · exact orderly.fresh other (mem_append_right _ (eraseIdx_subset created))
  · intro other isCurrent
    cases isCurrent
    exact orderly.created_fresh found

end Enqueueing

/-- Giving up the current action: the next one is the current one then, unstarted. -/
theorem Orderly.discard (orderly : client.Orderly) (found : client.current = some action)
    (pending : client.phase.pending = []) (nothing : phase.pending = [])
    (starting : phase.starting = true ∨ client.next = none) :
    Orderly { client with
      current := client.next
      next := none
      discarded := client.discarded ++ [action.runValue]
      phase := phase } := by
  refine orderly.of_count rfl rfl ?_ ?_ ?_
  · intro value
    simp only [values, queued, found, pending, nothing, count_append, map_append,
      map_cons, map_nil, count_nil, toList_none, toList_some]
    omega
  · intro other mem
    rw [queued, nothing] at mem
    exact orderly.fresh other (mem_append_right _ mem)
  · intro other isCurrent
    rcases starting with starts | empty
    · simp only [starts, if_true]
      exact orderly.next_fresh isCurrent
    · cases empty.symm.trans isCurrent

/-- `Tick` gives the action up, with the cancel of its destructor still to come or not. -/
theorem discard_eq (orderly : client.Orderly) (sent : action.sentStarted = true) :
    ∃ phase : ClientPhase π, phase.pending = [] ∧
      (phase.starting = true ∨ client.next = none) ∧
      client.discard action = { client with
        current := client.next
        next := none
        discarded := client.discarded ++ [action.runValue]
        phase := phase } := by
  unfold Client.discard destroy
  dsimp only
  split
  · exact ⟨.destroying action true, rfl, .inl rfl, rfl⟩
  · cases found : client.next with
    | none => exact ⟨.idle, rfl, .inr rfl, rfl⟩
    | some next =>
      refine ⟨.sendingStart, rfl, .inl rfl, ?_⟩
      simp only [resume, start, (orderly.next_fresh found).holdsGoal, if_true]

end Client

end Miranda.Actions
