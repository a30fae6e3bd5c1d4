import Miranda.Lib.Runs
import Miranda.Sync.Conditions

/-!
# No broadcast is lost

A history is kept beside the system: how often each condition has been incremented and
how often `FUTEX_WAKE` has been called on it, which broadcasts have returned, and for
each thread how far these counts were when it read its `wait_start`. A broadcast goes by
the number of its increment, so that a thread read its `wait_start` before that
increment exactly if the count it noted is smaller.
-/

namespace Miranda.Sync

open Runs State Function

variable {μ κ : Type}

structure Watch (μ κ : Type) where
  state : State μ κ
  /-- The increments of a condition so far. -/
  increments : κ → Nat
  /-- The calls of `FUTEX_WAKE` so far. -/
  calls : κ → Nat
  /-- The broadcasts that have returned, by the numbers of their increments. -/
  broadcasts : κ → List Nat
  /-- The increments of the condition when the thread read `wait_start`. -/
  started : Tid → Nat
  /-- The calls of `FUTEX_WAKE` at that time. -/
  seen : Tid → Nat
  /-- Whether `FUTEX_WAIT` has returned 0 since then without a wake. -/
  spurious : Tid → Bool
  /-- The number of the increment of the thread's last wake. -/
  number : Tid → Nat

namespace Watch

def start (state : State μ κ) : Watch μ κ where
  state
  increments _ := 0
  calls _ := 0
  broadcasts _ := []
  started _ := 0
  seen _ := 0
  spurious _ := false
  number _ := 0

variable [DecidableEq μ] [DecidableEq κ]

/-- The history after a step. -/
def record (watch : Watch μ κ) (label : Tid × Event μ κ) (after : State μ κ) : Watch μ κ :=
  match watch.state.phase label.1, label.2 with
  | .read c _, .advance _ =>
    { watch with
      state := after
      started := Function.update watch.started label.1 (watch.increments c)
      seen := Function.update watch.seen label.1 (watch.calls c)
      spurious := Function.update watch.spurious label.1 false }
  | .sleeping _ _ _, .advance .spurious =>
    { watch with state := after, spurious := Function.update watch.spurious label.1 true }
  | .increment c _, .advance _ =>
    { watch with
      state := after
      increments := Function.update watch.increments c (watch.increments c + 1)
      number := Function.update watch.number label.1 (watch.increments c + 1) }
  | .wake c broadcast, .advance _ =>
    { watch with
      state := after
      calls := Function.update watch.calls c (watch.calls c + 1)
      broadcasts := Function.update watch.broadcasts c
        (if broadcast then watch.number label.1 :: watch.broadcasts c else watch.broadcasts c) }
  | _, _ => { watch with state := after }

def take (watch : Watch μ κ) (label : Tid × Event μ κ) : Option (Watch μ κ) :=
  (watch.state.take label).map (watch.record label)

end Watch

/-- No wait has lasted for 2^32 increments. -/
def Timely (watch : Watch μ κ) : Prop :=
  ∀ tid c start, (watch.state.phase tid).waiting = some (c, start) →
    watch.increments c < watch.started tid + 2 ^ 32

def WatchStep [DecidableEq μ] [DecidableEq κ] (watch : Watch μ κ) (label : Tid × Event μ κ)
    (after : Watch μ κ) : Prop :=
  watch.take label = some after ∧ Timely after

/-! ### What every step keeps -/

/-- Where a thread is agrees with the history. -/
structure Place (base : κ → UInt32) (watch : Watch μ κ) (tid : Tid) (phase : Phase μ κ) :
    Prop where
  started : ∀ c start, phase.waiting = some (c, start) →
    start = base c + UInt32.ofNat (watch.started tid) ∧
      watch.started tid ≤ watch.increments c ∧ watch.seen tid ≤ watch.calls c
  numbered : ∀ c, phase.waking = some c → watch.number tid ≤ watch.increments c
  woken : ∀ c, phase.asleep = some c → ∀ number ∈ watch.broadcasts c, number ≤ watch.started tid
  roused : ∀ c, phase.relocking = some c →
    watch.started tid < watch.increments c ∨ watch.seen tid < watch.calls c ∨
      watch.spurious tid = true

structure Attentive (base : κ → UInt32) (watch : Watch μ κ) : Prop where
  queued : Queued watch.state
  counted : ∀ c, watch.state.condition c = base c + UInt32.ofNat (watch.increments c)
  past : ∀ c, ∀ number ∈ watch.broadcasts c, number ≤ watch.increments c
  places : ∀ tid, Place base watch tid (watch.state.phase tid)

section Keeping

variable {base : κ → UInt32} {watch later : Watch μ κ} {tid : Tid} {phase target : Phase μ κ}

/-- Equal counters of 32 bits, no more than that apart. -/
theorem count_eq {first : UInt32} {count noted : Nat} (least : noted ≤ count)
    (near : count < noted + 2 ^ 32)
    (same : first + UInt32.ofNat count = first + UInt32.ofNat noted) : count = noted := by
  have equal := congrArg UInt32.toNat ((UInt32.add_right_inj first).mp same)
  rw [UInt32.toNat_ofNat', UInt32.toNat_ofNat'] at equal
  omega

theorem Place.passes (place : Place base watch tid phase) (passes : Passes phase target) :
    Place base watch tid target where
  started c start waiting := place.started c start (passes.waiting _ waiting)
  numbered c waking := place.numbered c (passes.waking.symm.trans waking)
  woken c asleep := place.woken c (passes.asleep.symm.trans asleep)
  roused c relocking := place.roused c (passes.relocking c relocking)

/-- The history goes on and has nothing new about the thread. -/
theorem Place.congr (place : Place base watch tid phase)
    (started : later.started tid = watch.started tid) (seen : later.seen tid = watch.seen tid)
    (spurious : later.spurious tid = watch.spurious tid)
    (number : later.number tid = watch.number tid)
    (increments : ∀ c, watch.increments c ≤ later.increments c)
    (calls : ∀ c, watch.calls c ≤ later.calls c)
    (broadcasts : ∀ c, phase.asleep = some c → later.broadcasts c = watch.broadcasts c) :
    Place base later tid phase where
  started c start waiting := by
    obtain ⟨value, least, called⟩ := place.started c start waiting
    rw [started, seen]
    exact ⟨value, least.trans (increments c), called.trans (calls c)⟩
  numbered c waking := by
    rw [number]
    exact (place.numbered c waking).trans (increments c)
  woken c asleep := by
    rw [broadcasts c asleep, started]
    exact place.woken c asleep
  roused c relocking := by
    rw [started, seen, spurious]
    exact (place.roused c relocking).imp (fun before => before.trans_le (increments c))
      fun other => other.imp (fun before => before.trans_le (calls c)) id

/-- Only the state changes. -/
theorem Place.state (place : Place base watch tid phase) (after : State μ κ) :
    Place base { watch with state := after } tid phase :=
  ⟨place.started, place.numbered, place.woken, place.roused⟩

theorem places_goto {memory : State μ κ} (phases : memory.phase = watch.state.phase)
    (mine : Place base later tid target)
    (others : ∀ thread, thread ≠ tid → Place base later thread (watch.state.phase thread))
    (thread : Tid) : Place base later thread ((memory.goto tid target).phase thread) := by
  by_cases same : thread = tid
  · subst same
    rw [goto_phase]
    exact mine
  · rw [goto_phase_other _ same, phases]
    exact others thread same

/-- A place that the history says nothing about. -/
theorem place_out (out : phase.stand = {}) : Place base watch tid phase where
  started _ _ same := nomatch (congrArg Stand.waiting out).symm.trans same
  numbered _ same := nomatch (congrArg Stand.waking out).symm.trans same
  woken _ same := nomatch (congrArg Stand.asleep out).symm.trans same
  roused _ same := nomatch (congrArg Stand.relocking out).symm.trans same

theorem Attentive.pass {after : State μ κ} (attentive : Attentive base watch)
    (condition : after.condition = watch.state.condition)
    (sleepers : after.sleepers = watch.state.sleepers)
    (phases : ∀ thread, Passes (watch.state.phase thread) (after.phase thread)) :
    Attentive base { watch with state := after } where
  queued := attentive.queued.congr sleepers fun thread => (phases thread).asleep
  counted c := by
    rw [condition]
    exact attentive.counted c
  past := attentive.past
  places thread := ((attentive.places thread).passes (phases thread)).state after

/-- If a condition has the value that a thread read, nothing has happened since. -/
theorem Attentive.unchanged {c : κ} {start : UInt32} (attentive : Attentive base watch)
    (timely : Timely watch) (waiting : (watch.state.phase tid).waiting = some (c, start))
    (same : watch.state.condition c = start) : watch.increments c = watch.started tid := by
  obtain ⟨value, least, _⟩ := (attentive.places tid).started c start waiting
  exact count_eq least (timely tid c start waiting)
    ((attentive.counted c).symm.trans (same.trans value))

/-- Dead threads are taken off the lists of sleepers. -/
theorem Attentive.die [DecidableEq μ] {list : List μ} (attentive : Attentive base watch) :
    Attentive base { watch with state := watch.state.exit tid list } where
  queued := by
    have erased : ∀ c, (watch.state.exit tid list).sleepers c =
        (watch.state.sleepers c).erase tid := fun _ => rfl
    refine attentive.queued.leave erased ?_ fun thread different => ?_
    · rw [State.exit, goto_phase]
      rfl
    · rw [State.exit, goto_phase_other _ different]
  counted := attentive.counted
  past := attentive.past
  places := by
    exact places_goto rfl (place_out rfl) fun thread _ =>
      (attentive.places thread).state _

theorem attentive_start {state : State μ κ} (fresh : state.Fresh) :
    Attentive state.condition (Watch.start state) where
  queued := by
    refine ⟨fun c => ?_, fun c tid => ?_⟩
    · show (state.sleepers c).Nodup
      rw [fresh.sleepers]
      exact List.nodup_nil
    · show tid ∈ state.sleepers c ↔ (state.phase tid).asleep = some c
      rw [fresh.sleepers, fresh.phase]
      exact iff_of_false List.not_mem_nil nofun
  counted c := (UInt32.add_zero _).symm
  past _ _ member := nomatch member
  places tid := by
    show Place _ _ tid (state.phase tid)
    rw [fresh.phase]
    exact place_out rfl

variable {c : κ} {m : μ} {start : UInt32}

theorem Attentive.read (attentive : Attentive base watch)
    (phase : watch.state.phase tid = .read c m) :
    Attentive base { watch with
      state := watch.state.goto tid (.unlock m (some (c, watch.state.condition c)) .check)
      started := Function.update watch.started tid (watch.increments c)
      seen := Function.update watch.seen tid (watch.calls c)
      spurious := Function.update watch.spurious tid false } where
  queued := attentive.queued.goto rfl rfl phase rfl
  counted := attentive.counted
  past := attentive.past
  places := by
    refine places_goto rfl ⟨?_, nofun, nofun, nofun⟩ ?_
    · rintro _ _ ⟨⟩
      dsimp only
      rw [update_self, update_self]
      exact ⟨attentive.counted c, le_rfl, le_rfl⟩
    · intro thread different
      exact (attentive.places thread).congr (update_of_ne different _ _)
        (update_of_ne different _ _) (update_of_ne different _ _) rfl
        (fun _ => le_rfl) (fun _ => le_rfl) fun _ _ => rfl

theorem Attentive.again (attentive : Attentive base watch)
    (phase : watch.state.phase tid = .futexWait c m start)
    (changed : watch.state.condition c ≠ start) :
    Attentive base { watch with state := watch.state.goto tid (.getSwap (.wait c start) m) } where
  queued := attentive.queued.goto rfl rfl phase rfl
  counted := attentive.counted
  past := attentive.past
  places := by
    have waiting : (watch.state.phase tid).waiting = some (c, start) := by
      rw [phase]
      rfl
    obtain ⟨value, least, called⟩ := (attentive.places tid).started c start waiting
    refine places_goto rfl ⟨nofun, nofun, nofun, ?_⟩ fun thread _ =>
      (attentive.places thread).state _
    rintro _ ⟨⟩
    refine .inl (lt_of_le_of_ne least ?_)
    intro none
    rw [attentive.counted, value, none] at changed
    exact changed rfl

/-- A sleeper that is woken. -/
theorem Place.awake (place : Place base watch tid (.sleeping c m start))
    (seen : later.seen tid = watch.seen tid) (called : later.calls c = watch.calls c + 1) :
    Place base later tid (.getSwap (.wait c start) m) where
  started := nofun
  numbered := nofun
  woken := nofun
  roused := by
    rintro _ ⟨⟩
    obtain ⟨_, _, before⟩ := place.started c start rfl
    refine .inr (.inl ?_)
    rw [seen, called]
    exact Nat.lt_succ_of_le before

variable [DecidableEq κ]

theorem le_update {counts : κ → Nat} (c other : κ) :
    counts other ≤ Function.update counts c (counts c + 1) other :=
  le_update_iff.mpr ⟨Nat.le_succ _, fun _ _ => le_rfl⟩ other

section

variable (attentive : Attentive base watch)
include attentive

/-- A thread goes to sleep only if nothing has happened since it read `wait_start`. -/
theorem Attentive.sleep (timely : Timely watch)
    (phase : watch.state.phase tid = .futexWait c m start)
    (same : watch.state.condition c = start) :
    Attentive base { watch with
      state := (watch.state.setSleepers c (watch.state.sleepers c ++ [tid])).goto tid
        (.sleeping c m start) } where
  queued := attentive.queued.sleep (by rw [phase]; rfl)
  counted := attentive.counted
  past := attentive.past
  places := by
    have waiting : (watch.state.phase tid).waiting = some (c, start) := by
      rw [phase]
      rfl
    have now := attentive.unchanged timely waiting same
    refine places_goto rfl ⟨?_, nofun, ?_, nofun⟩ fun thread _ => (attentive.places thread).state _
    · rintro _ _ ⟨⟩
      exact (attentive.places tid).started c start waiting
    · rintro _ ⟨⟩ number member
      exact (attentive.past c number member).trans_eq now

theorem Attentive.interrupted (phase : watch.state.phase tid = .sleeping c m start) :
    Attentive base { watch with
      state := (watch.state.setSleepers c ((watch.state.sleepers c).erase tid)).goto tid
        (.futexWait c m start) } :=
  { attentive with
    queued := attentive.queued.erase (by rw [phase]; rfl) rfl
    places := by
      refine places_goto rfl ⟨?_, nofun, nofun, nofun⟩ fun thread _ =>
        (attentive.places thread).state _
      have waiting := (attentive.places tid).started
      rw [phase] at waiting
      exact waiting }

theorem Attentive.spurious (phase : watch.state.phase tid = .sleeping c m start) :
    Attentive base { watch with
      state := (watch.state.setSleepers c ((watch.state.sleepers c).erase tid)).goto tid
        (.getSwap (.wait c start) m)
      spurious := Function.update watch.spurious tid true } :=
  { attentive with
    queued := attentive.queued.erase (by rw [phase]; rfl) rfl
    places := by
      refine places_goto rfl ⟨nofun, nofun, nofun, ?_⟩ ?_
      · rintro _ _
        exact .inr (.inr (update_self _ _ _))
      · intro thread different
        exact (attentive.places thread).congr rfl rfl (update_of_ne different _ _) rfl
          (fun _ => le_rfl) (fun _ => le_rfl) fun _ _ => rfl }

theorem Attentive.increment {broadcast : Bool}
    (phase : watch.state.phase tid = .increment c broadcast) :
    Attentive base { watch with
      state := { watch.state with
        condition := Function.update watch.state.condition c
          (watch.state.condition c + 1) }.goto tid (.wake c broadcast)
      increments := Function.update watch.increments c (watch.increments c + 1)
      number := Function.update watch.number tid (watch.increments c + 1) } where
  queued := attentive.queued.goto rfl rfl phase rfl
  counted other := by
    show Function.update watch.state.condition c _ other =
      base other + .ofNat (Function.update watch.increments c _ other)
    by_cases same : other = c
    · subst same
      rw [update_self, update_self, attentive.counted, UInt32.ofNat_add,
        UInt32.add_assoc]
      rfl
    · rw [update_of_ne same, update_of_ne same, attentive.counted]
  past other number member := (attentive.past other number member).trans (le_update c other)
  places := by
    refine places_goto rfl ⟨nofun, ?_, nofun, nofun⟩ ?_
    · rintro _ ⟨⟩
      dsimp only
      rw [update_self, update_self]
    · intro thread different
      exact (attentive.places thread).congr rfl rfl rfl (update_of_ne different _ _)
        (le_update c) (fun _ => le_rfl) fun _ _ => rfl

theorem Attentive.wake {broadcast : Bool} {woken : List Tid}
    (phase : watch.state.phase tid = .wake c broadcast) (distinct : woken.Nodup)
    (asleep : woken ⊆ watch.state.sleepers c)
    (count : woken.length = min (wakeCount broadcast) (watch.state.sleepers c).length) :
    Attentive base { watch with
      state := watch.state.rouse tid c woken
      calls := Function.update watch.calls c (watch.calls c + 1)
      broadcasts := Function.update watch.broadcasts c
        (if broadcast then watch.number tid :: watch.broadcasts c else watch.broadcasts c) } where
  queued := attentive.queued.rouse (by rw [phase]; rfl) asleep
  counted := attentive.counted
  past other number member := by
    have last := (attentive.places tid).numbered c (by rw [phase]; rfl)
    by_cases same : other = c
    · subst same
      dsimp only at member
      rw [update_self] at member
      split at member
      · rcases List.mem_cons.mp member with rfl | earlier
        · exact last
        · exact attentive.past other number earlier
      · exact attentive.past other number member
    · dsimp only at member
      rw [update_of_ne same] at member
      exact attentive.past other number member
  places thread := by
    by_cases mine : thread = tid
    · subst mine
      rw [State.rouse, goto_phase]
      exact place_out rfl
    · rw [State.rouse, goto_phase_other _ mine]
      dsimp only
      have place := attentive.places thread
      have listed := attentive.queued.asleep c thread
      by_cases chosen : thread ∈ woken
      · rw [if_pos chosen]
        have sleeps := listed.mp (asleep chosen)
        cases there : watch.state.phase thread with
        | sleeping found m start =>
          rw [there] at place sleeps
          cases sleeps
          exact place.awake rfl (update_self _ _ _)
        | _ =>
          rw [there] at sleeps
          cases sleeps
      · rw [if_neg chosen]
        refine place.congr rfl rfl rfl rfl (fun _ => le_rfl) (le_update c) ?_
        intro other sleeps
        by_cases same : other = c
        · subst same
          dsimp only
          rw [update_self, if_neg]
          rintro rfl
          exact chosen (attentive.queued.rouse_all distinct asleep count (listed.mpr sleeps))
        · exact update_of_ne same _ _

end

/-! ### Steps -/

section Records

variable {outcome : Outcome} {after : State μ κ} {label : Tid × Event μ κ}

theorem record_unconcerned (unconcerned : (watch.state.phase label.1).concerned = false) :
    watch.record label after = { watch with state := after } := by
  unfold Watch.record
  split
  all_goals first | rfl | (next phase _ => rw [phase] at unconcerned; cases unconcerned)

theorem Attentive.advance (attentive : Attentive base watch) (timely : Timely watch)
    (move : WaitMove watch.state tid outcome after) :
    Attentive base (watch.record (tid, .advance outcome) after) := by
  cases move with
  | pass unconcerned condition sleepers phases =>
    rw [record_unconcerned unconcerned]
    exact attentive.pass condition sleepers phases
  | read phase =>
    simp only [Watch.record, phase]
    exact attentive.read phase
  | sleep phase same =>
    simp only [Watch.record, phase]
    exact attentive.sleep timely phase same
  | again phase changed =>
    simp only [Watch.record, phase]
    exact attentive.again phase changed
  | retry phase =>
    simp only [Watch.record, phase]
    exact attentive
  | interrupted phase =>
    simp only [Watch.record, phase]
    exact attentive.interrupted phase
  | spurious phase =>
    simp only [Watch.record, phase]
    exact attentive.spurious phase
  | increment phase =>
    simp only [Watch.record, phase]
    exact attentive.increment phase
  | wake phase distinct asleep count =>
    simp only [Watch.record, phase]
    exact attentive.wake phase distinct asleep count

variable [DecidableEq μ]

theorem WatchStep.attentive {next : Watch μ κ} (step : WatchStep watch label next)
    (attentive : Attentive base watch) (timely : Timely watch) : Attentive base next := by
  obtain ⟨tid, event⟩ := label
  obtain ⟨after, taken, rfl⟩ := Option.map_eq_some_iff.mp step.1
  cases event with
  | advance outcome => exact attentive.advance timely (advance_waitMove taken)
  | call operation =>
    cases step_moves taken with
    | call _ idle =>
      rw [record_unconcerned (by rw [idle]; rfl)]
      refine attentive.pass rfl rfl ?_
      intro thread
      by_cases same : thread = tid
      · subst same
        rw [goto_phase, idle]
        exact begin_passes operation
      · rw [goto_phase_other _ same]
        exact .refl _
  | die list =>
    cases step_moves taken with
    | die live visits =>
      have recorded : watch.record (tid, .die list) (watch.state.exit tid list) =
          { watch with state := watch.state.exit tid list } := by
        unfold Watch.record
        split
        all_goals first | rfl | (next other => cases other)
      rw [recorded]
      exact attentive.die

end Records

end Keeping

/-! ### Runs -/

section Histories

/-- Everything that holds between the steps of a run. -/
structure Vigilant (base : κ → UInt32) (watch : Watch μ κ) : Prop where
  consistent : AllConsistent watch.state
  acquired : AcquiredOwned watch.state
  relocked : ∀ tid, (watch.state.phase tid).Relocked
  attentive : Attentive base watch
  timely : Timely watch

theorem vigilant_start {state : State μ κ} (fresh : state.Fresh) :
    Vigilant state.condition (Watch.start state) where
  consistent := fresh.allConsistent
  acquired := fresh.acquiredOwned
  relocked tid := by
    show (state.phase tid).Relocked
    rw [fresh.phase]
    trivial
  attentive := attentive_start fresh
  timely tid c start waiting := by
    have idle := fresh.phase tid
    rw [Watch.start, idle] at waiting
    cases waiting

variable [DecidableEq κ]

theorem record_state (watch : Watch μ κ) (label : Tid × Event μ κ) (after : State μ κ) :
    (watch.record label after).state = after := by
  unfold Watch.record
  split <;> rfl

variable [DecidableEq μ]

theorem WatchStep.vigilant {base : κ → UInt32} {watch next : Watch μ κ}
    {label : Tid × Event μ κ} (step : WatchStep watch label next) (vigilant : Vigilant base watch) :
    Vigilant base next := by
  have attentive := step.attentive vigilant.attentive vigilant.timely
  have timely := step.2
  obtain ⟨after, taken, rfl⟩ := Option.map_eq_some_iff.mp step.1
  refine ⟨?_, ?_, ?_, attentive, timely⟩ <;> rw [record_state]
  · exact Step.allConsistent taken vigilant.consistent
  · exact Step.acquiredOwned taken vigilant.consistent vigilant.acquired
  · exact Step.relocked taken vigilant.relocked

end Histories

/-- At every point of every run in which no thread is on its way to sleep or asleep during
2^32 increments of its condition: no broadcast that has returned did its increment
after a thread that is asleep read its `wait_start`, and one about to go to sleep that
read it before is turned away; and a thread about to return from `condition_wait` owns
the mutex, and since it read `wait_start` the condition was incremented or woken, or
`FUTEX_WAIT` returned without a wake.

Proof: by induction on the run the notes of each thread fit its place (`Attentive`); a
condition with the value that was read has not been incremented since. -/
theorem condition_loses_no_broadcast [DecidableEq μ] [DecidableEq κ] {initial : State μ κ}
    {final : Watch μ κ} {labels : List (Tid × Event μ κ)} (fresh : initial.Fresh)
    (run : Run WatchStep (Watch.start initial) labels final) :
    (∀ tid c m start, final.state.phase tid = .sleeping c m start →
      ∀ number ∈ final.broadcasts c, number ≤ final.started tid) ∧
    (∀ tid c m start, final.state.phase tid = .futexWait c m start →
      ∀ number ∈ final.broadcasts c, final.started tid < number →
        final.state.condition c ≠ start) ∧
    ∀ tid c m start result, final.state.phase tid = .close (.doGet (.wait c start)) m result →
      (final.state.futex m).owner = some tid ∧ (∃ died, result = .locked died) ∧
        (final.started tid < final.increments c ∨ final.seen tid < final.calls c ∨
          final.spurious tid = true) := by
  have vigilant : Vigilant _ final := run.invariant (vigilant_start fresh)
    fun _ _ _ vigilant step => WatchStep.vigilant step vigilant
  refine ⟨?_, ?_, ?_⟩
  · intro tid c m start phase
    exact (vigilant.attentive.places tid).woken c (by rw [phase]; rfl)
  · intro tid c m start phase number member before same
    have waiting : (final.state.phase tid).waiting = some (c, start) := by
      rw [phase]
      rfl
    have now := vigilant.attentive.unchanged vigilant.timely waiting same
    have past := vigilant.attentive.past c number member
    omega
  · intro tid c m start result phase
    have relocked := vigilant.relocked tid
    rw [phase] at relocked
    obtain ⟨died, rfl⟩ := relocked
    refine ⟨vigilant.acquired tid m ?_, ⟨died, rfl⟩, (vigilant.attentive.places tid).roused c ?_⟩
    · rw [phase]
      rfl
    · rw [phase]
      rfl

section Short

variable [DecidableEq κ]

theorem record_increments (watch : Watch μ κ) (label : Tid × Event μ κ) (after : State μ κ)
    (c : κ) : (watch.record label after).increments c ≤ watch.increments c + 1 := by
  unfold Watch.record
  split
  case h_3 found _ _ _ _ =>
    dsimp only
    by_cases same : c = found
    · rw [same, update_self]
    · rw [update_of_ne same]
      exact Nat.le_succ _
  all_goals exact Nat.le_succ _

variable [DecidableEq μ] {initial : State μ κ} {final : Watch μ κ}
  {labels : List (Tid × Event μ κ)}

/-- No wait can be too long in a run of fewer than 2^32 steps. -/
theorem timely_of_short
    (run : Run (fun watch label after => Watch.take watch label = some after)
      (Watch.start initial) labels final) (short : labels.length < 2 ^ 32) :
    Run WatchStep (Watch.start initial) labels final ∧ ∀ c, final.increments c ≤ labels.length := by
  induction run with
  | nil => exact ⟨.nil _, fun _ => le_rfl⟩
  | @snoc state next before label prior taken ih =>
    rw [List.length_append, List.length_singleton] at short ⊢
    obtain ⟨watched, few⟩ := ih (by omega)
    have more : ∀ c, next.increments c ≤ before.length + 1 := by
      intro c
      obtain ⟨after, _, rfl⟩ := Option.map_eq_some_iff.mp taken
      exact (record_increments state label after c).trans (Nat.succ_le_succ (few c))
    refine ⟨watched.snoc ⟨taken, ?_⟩, more⟩
    intro tid c start _
    have := more c
    omega

end Short

/-- A thread waits for a condition until another one broadcasts it. -/
def woken : List (Tid × Event Bool Unit) :=
  (Event.call (.lock false) :: List.replicate 7 (.advance .proceed) ++
    Event.call (.wait () false) :: List.replicate 9 (.advance .proceed)).map
      (fun event => (1, event)) ++
    [(2, .call (.broadcast ())), (2, .advance .proceed), (2, .advance (.wake [1]))] ++
    List.replicate 5 (1, .advance .proceed)

theorem condition_loses_no_broadcast_sample :
    ∃ final, Run WatchStep (Watch.start calm) woken final ∧ final.broadcasts () = [1] ∧
      final.state.phase 1 = .close (.doGet (.wait () 0)) false (.locked false) ∧
      (final.state.futex false).owner = some 1 ∧
      (final.started 1 < final.increments () ∨ final.seen 1 < final.calls () ∨
        final.spurious 1 = true) := by
  have executed : (woken.foldlM Watch.take (.start calm)).map
      (fun watch => (watch.broadcasts (), watch.state.phase 1)) =
      some ([1], .close (.doGet (.wait () 0)) false (.locked false)) := by decide
  obtain ⟨final, reached, shown⟩ := Option.map_eq_some_iff.mp executed
  obtain ⟨broadcasts, phase⟩ := Prod.mk.inj shown
  have run : Run WatchStep _ woken final :=
    (timely_of_short (.of_foldlM (fun _ _ _ taken => taken) (.nil _) woken reached)
      (by decide)).1
  obtain ⟨_, _, returns⟩ := condition_loses_no_broadcast calm_fresh run
  obtain ⟨owner, _, since⟩ := returns 1 () false 0 _ phase
  exact ⟨final, run, broadcasts, phase, owner, since⟩

end Miranda.Sync
