import Miranda.Starter.Ownership
import Miranda.Lib.Runs

/-!
# Removed watches

What each function of a watch does to the invariant, and what an event for a removed watch
does instead.
-/

namespace Miranda.Starter

open Runs Bool

/-! ## The functions of the program -/

variable {object : Nat} {process : Process} {operation : Operation} {callback : List Operation}
  {wd : Nat} {found : Bool}

theorem createWatch_safe (sound : Sound process) (found : Bool)
    (none : (process.objects object).watch = none) (present : Act.removed object ∉ process.history)
    (born : object < process.count) :
    Safe Sound (createWatch object found process) := by
  simp only [createWatch, none]
  cases found with
  | true => exact sound.watched none present born
  | false => exact nofun

theorem construct_safe (sound : Sound process) (checkFilename : List Char) (found : Bool) :
    Safe Sound (construct checkFilename found process) := by
  apply createWatch_safe (sound.allocated checkFilename)
  · simp [Process.allocated, Process.setObject]
  · intro member
    exact Nat.lt_irrefl _ ((sound.settled _).removed member).2.2
  · exact Nat.lt_succ_self _

theorem operate_safe (sound : Sound process) (calm : operation.calm process = true) :
    Safe Sound (operate process operation) := by
  cases operation with
  | construct checkFilename found => exact construct_safe sound checkFilename found
  | removeWatch object =>
    obtain ⟨wd, watch⟩ := Option.isSome_iff_exists.mp calm
    have idle := (sound.settled object).pending ((sound.settled object).not_removed watch)
    simp only [operate, removeWatch, watch, idle]
    exact sound.unwatched watch

/-- Removing a watch twice fails a check. -/
theorem operate_dies (restless : operation.calm process = false) :
    operate process operation = .error .check := by
  cases operation with
  | construct checkFilename found => cases restless
  | removeWatch object =>
    have gone : (process.objects object).watch = none := by
      simpa [Operation.calm] using restless
    simp only [operate, removeWatch, gone]

theorem callback_safe (sound : Sound process) (calm : callbackCalm process callback = true) :
    Safe Sound (callback.foldlM operate process) := by
  induction callback generalizing process with
  | nil => exact sound
  | cons operation rest ih =>
    rw [callbackCalm, and_eq_true] at calm
    have first := operate_safe sound calm.1
    rw [List.foldlM_cons]
    cases result : operate process operation with
    | ok next =>
      rw [result] at first
      exact ih first (by simpa only [result] using calm.2)
    | error death =>
      rw [result] at first
      exact first

theorem callback_dies (restless : callbackCalm process callback = false) :
    callback.foldlM operate process = .error .check := by
  induction callback generalizing process with
  | nil => cases restless
  | cons operation rest ih =>
    rw [List.foldlM_cons]
    cases first : operation.calm process with
    | false => rw [operate_dies first]; rfl
    | true =>
      rw [callbackCalm, first, Bool.true_and] at restless
      cases result : operate process operation with
      | ok next => exact ih (by simpa only [result] using restless)
      | error death => simp only [result] at restless; cases restless

/-- An object whose watch has ended without being removed watches its file again. -/
theorem watchDeleted_safe (sound : Sound process) (watch : (process.objects object).watch = some wd)
    (ended : wd ∉ process.kernel.live) (found : Bool) :
    Safe Sound (watchDeleted object found process) := by
  have own := sound.settled object
  have present := own.not_removed watch
  have born := own.born watch
  have taken : removeWatchFromMap object process =
      .ok ((process.forget object wd).setObject object
        { process.objects object with watch := none }) := by
    simp only [removeWatchFromMap, own.pending present, watch]
  have released := sound.released watch ended
  rw [watchDeleted, taken]
  apply createWatch_safe released
  · simp [Process.setObject]
  · rw [Process.forget, if_pos (own.owner wd watch)]
    exact present
  · rw [Process.forget, if_pos (own.owner wd watch)]
    exact born

/-- An object whose watch was removed watches its file again as well. -/
theorem watchDeleted_removed (none : (process.objects object).watch = none)
    (waits : (process.objects object).watchToRemove = some wd) (found : Bool) :
    watchDeleted object found process =
      if found then
        .ok (((process.forget object wd).setObject object
          { process.objects object with watchToRemove := Option.none }).watched object)
      else .error .fatal := by
  have taken : removeWatchFromMap object process =
      .ok ((process.forget object wd).setObject object
        { process.objects object with watchToRemove := .none }) := by
    simp only [removeWatchFromMap, waits]
  rw [watchDeleted, taken]
  simp [Except.bind, createWatch, Process.setObject, none]

section

variable (sound : Sound process)
include sound

theorem fileNotified_safe (watch : (process.objects object).watch = some wd)
    (name : Option (List Char))
    (calm : (process.objects object).accepts name = true →
      callbackCalm (process.note (.called object)) callback = true) :
    Safe Sound (fileNotified object name callback process) := by
  simp only [fileNotified, watch]
  cases accepted : (process.objects object).accepts name with
  | true => exact callback_safe (sound.note_called watch) (calm accepted)
  | false => exact sound

/-- Handling an event that is not for a removed watch. -/
theorem handleEvent_safe (calm : eventCalm process callback found = true) :
    Safe Sound (handleEvent callback found process) := by
  rw [eventCalm] at calm
  rw [handleEvent]
  cases queue : process.kernel.queue with
  | nil => exact sound
  | cons event rest =>
    simp only [queue] at calm ⊢
    cases entry : process.watchers _ with
    | none => exact sound.taken
    | some object =>
      simp only [entry] at calm ⊢
      cases ignored : event.ignored with
      | true =>
        simp only [ignored, if_true, or_eq_true, not_eq_true'] at calm ⊢
        cases watch : (process.objects object).watch with
        | some wd =>
          obtain rfl := (sound.settled object).entry_eq entry watch
          have ended := (sound.ended event (by simp [queue]) ignored).2
          exact watchDeleted_safe sound.taken watch ended found
        | none =>
          obtain rfl : found = false := by simpa [watch] using calm
          obtain ⟨-, wd, waits⟩ := (sound.settled object).waiting entry watch
          have again := @watchDeleted_removed object process.taken wd watch waits false
          rw [again]
          exact nofun
      | false =>
        simp only [ignored, false_eq_true, if_false, and_eq_true, or_eq_true,
          not_eq_true'] at calm ⊢
        obtain ⟨wd, watch⟩ := Option.isSome_iff_exists.mp calm.1
        apply fileNotified_safe sound.taken watch
        intro (accepted : (process.objects object).accepts _ = true)
        exact calm.2.resolve_left (by simp [accepted])

/-- Handling an event for a removed watch. One that was queued before the removal fails a
check, and `IN_IGNORED` brings the watch back. -/
theorem handleEvent_not_safe (restless : eventCalm process callback found = false) :
    ¬ Safe Good (handleEvent callback found process) := by
  intro safe
  rw [eventCalm] at restless
  rw [handleEvent] at safe
  cases queue : process.kernel.queue with
  | nil => simp [queue] at restless
  | cons event rest =>
    simp only [queue] at restless safe
    cases entry : process.watchers event.wd with
    | none => simp [entry] at restless
    | some object =>
      simp only [entry] at restless safe
      cases ignored : event.ignored with
      | true =>
        simp only [ignored, if_true, or_eq_false_iff, not_eq_false'] at restless safe
        obtain ⟨missing, rfl⟩ := restless
        have watch : (process.objects object).watch = none := by simpa using missing
        obtain ⟨gone, wd, waits⟩ := (sound.settled object).waiting entry watch
        have again := @watchDeleted_removed object process.taken wd watch waits true
        rw [again] at safe
        have apart := (Histories.always_snoc.mp safe.kept).2 object rfl
        apply apart
        simp only [Process.setObject, Process.forget]
        split
        · exact gone
        · exact gone
      | false =>
        simp only [ignored, false_eq_true, if_false] at restless safe
        cases watch : (process.objects object).watch with
        | none =>
          have dies : fileNotified object event.name callback process.taken = .error .check := by
            simp only [fileNotified, Process.taken, watch]
          rw [dies] at safe
          exact safe rfl
        | some wd =>
          simp only [watch, Option.isSome_some, Bool.true_and, or_eq_false_iff,
            not_eq_false'] at restless
          have dies : fileNotified object event.name callback process.taken = .error .check := by
            have accepted : (process.taken.objects object).accepts _ = true := restless.1
            have present : (process.taken.objects object).watch = some wd := watch
            simp only [fileNotified, present, accepted, if_true]
            exact callback_dies restless.2
          rw [dies] at safe
          exact safe rfl

theorem step_safe {label : Label} (quiet : calm process label = true) :
    Safe Sound (step process label) := by
  cases label with
  | operate operation => exact operate_safe sound quiet
  | notify wd name => exact sound.notify wd name
  | delete wd => exact sound.rmWatch wd
  | handle callback found => exact handleEvent_safe sound quiet

theorem step_safe_iff (label : Label) :
    Safe Good (step process label) ↔ calm process label = true := by
  constructor
  · intro safe
    by_contra restless
    rw [not_eq_true] at restless
    cases label with
    | operate operation =>
      rw [step, operate_dies restless] at safe
      exact safe rfl
    | notify wd name => cases restless
    | delete wd => cases restless
    | handle callback found => exact handleEvent_not_safe sound restless safe
  · intro quiet
    exact (step_safe sound quiet).mono fun _ => Sound.good

end

theorem sound_of_run {labels : List Label} (run : Run CalmStep {} labels process) :
    Sound process := by
  refine run.invariant sound_initial ?_
  rintro before label after sound ⟨quiet, taken⟩
  have safe := step_safe sound quiet
  rwa [taken] at safe

/-- As long as no event for a removed watch is handled, removed watches stay removed and the
map leads from every watched descriptor to its owner. A step fails a check or breaks this
exactly if it handles an event for a removed watch, or removes a watch that is removed.

Proof: calm steps keep the ownership of watches (`Sound`); the others fail a check, or watch
a removed object again (`step_safe_iff`). -/
theorem removed_stays_removed_iff {labels : List Label} {process : Process}
    (run : Run CalmStep {} labels process) :
    Good process ∧ ∀ label, Safe Good (step process label) ↔ calm process label = true :=
  ⟨(sound_of_run run).good, step_safe_iff (sound_of_run run)⟩

/-- Executes steps that leave removed watches alone. -/
def calmNext (process : Process) (label : Label) : Option Process :=
  if calm process label then (step process label).toOption else none

theorem calmNext_sound (process : Process) (label : Label) (after : Process)
    (taken : calmNext process label = some after) : CalmStep process label after := by
  by_cases quiet : calm process label = true
  · rw [calmNext, if_pos quiet] at taken
    cases result : step process label with
    | ok next =>
      rw [result] at taken
      exact ⟨quiet, by rw [← Option.some.inj taken]; exact result⟩
    | error death =>
      rw [result] at taken
      cases taken
  · rw [calmNext, if_neg quiet] at taken
    cases taken

/-- Two objects; a callback of the first removes its watch, and the second is notified. -/
def sample : List Label :=
  [.operate (.construct [] true), .operate (.construct ['t'] true), .notify 1 none,
    .notify 2 (some ['t']), .handle [.removeWatch 0] true, .handle [] true]

theorem removed_stays_removed_sample :
    ∃ process, Run CalmStep {} sample process ∧
      process.history = [.created 0 1, .created 1 2, .called 0, .removed 0, .called 1] ∧
      Good process ∧ ¬ Safe Good (step process (.handle [] true)) := by
  obtain ⟨process, executed, facts⟩ : ∃ process, sample.foldlM calmNext {} = some process ∧
      (process.history, calm process (.handle [] true)) =
        ([.created 0 1, .created 1 2, .called 0, .removed 0, .called 1], false) :=
    Option.map_eq_some_iff.mp (by decide)
  obtain ⟨history, restless⟩ := Prod.mk.inj facts
  have run := Run.of_foldlM calmNext_sound (.nil {}) sample executed
  obtain ⟨good, safe⟩ := removed_stays_removed_iff run
  refine ⟨process, run, history, good, ?_⟩
  rw [safe, restless]
  exact false_ne_true

/-- An event that was queued before `RemoveWatch` fails a check. A callback that removes its
own watch is called again after the watch came back with `IN_IGNORED`. -/
theorem removed_watch_returns :
    (([.operate (.construct [] true), .notify 1 none, .operate (.removeWatch 0),
      .handle [] true] : List Label).foldlM step {}).map Process.history = .error .check ∧
    (([.operate (.construct [] true), .notify 1 none, .handle [.removeWatch 0] true,
      .handle [] true, .notify 2 none, .handle [] true] : List Label).foldlM step {}).map
        Process.history =
      .ok [.created 0 1, .called 0, .removed 0, .created 0 2, .called 0] ∧
    ¬ Kept [.created 0 1, .called 0, .removed 0, .created 0 2, .called 0] := by
  refine ⟨by rfl, by rfl, ?_⟩
  intro kept
  exact kept [.created 0 1, .called 0, .removed 0] _ _ rfl 0 rfl (by simp)

end Miranda.Starter
