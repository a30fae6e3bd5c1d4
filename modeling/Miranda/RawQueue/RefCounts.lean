import Mathlib.Data.Finset.Card
import Miranda.RawQueue.Ring

/-!
# Concurrent drops of one message

`DecrementMessageReferenceCount` takes no lock. It is an atomic decrement of the
header's count followed by a separate atomic load that is compared with zero. Here
the holders of one message drop their references concurrently, on a queue without a
recycle queue, where `DoFreeMessage` leaves the count alone. A schedule lists whose
turn it is; the first turn of a holder is its decrement and the second its load.
-/

namespace Miranda.RawQueue

open Function List Finset

inductive DropPhase where
  | holding
  | decremented
  | done
deriving DecidableEq

/-- The count of the message, how far each thread is, and who called
`DoFreeMessage`. -/
structure Dropping where
  refCount : Int
  phase : ThreadId → DropPhase
  freed : List ThreadId

/-- The next atomic step of one thread. -/
def dropStep (state : Dropping) (thread : ThreadId) : Dropping :=
  match state.phase thread with
  | .holding =>
      { state with
        refCount := state.refCount - 1
        phase := update state.phase thread .decremented }
  | .decremented =>
      { state with
        phase := update state.phase thread .done
        freed := if state.refCount = 0 then state.freed ++ [thread] else state.freed }
  | .done => state

/-- A message with this many references, all held. -/
def dropStart (count : Nat) : Dropping := ⟨count, fun _ => .holding, []⟩

def dropRun (state : Dropping) (schedule : List ThreadId) : Dropping :=
  schedule.foldl dropStep state

/-- Every holder has its two turns and nobody else has any. -/
structure Interleaves (holders : Finset ThreadId) (schedule : List ThreadId) : Prop where
  twice : ∀ thread ∈ holders, schedule.count thread = 2
  only : ∀ thread ∈ schedule, thread ∈ holders

variable {state : Dropping} {thread : ThreadId} {schedule : List ThreadId}

theorem dropRun_snoc (state : Dropping) (schedule : List ThreadId) (thread : ThreadId) :
    dropRun state (schedule ++ [thread]) = dropStep (dropRun state schedule) thread := by
  simp [dropRun]

theorem dropRun_append (state : Dropping) (first second : List ThreadId) :
    dropRun state (first ++ second) = dropRun (dropRun state first) second := by
  simp [dropRun]

/-- How far a thread is after some turns. -/
def phaseAfter (turns : Nat) : DropPhase :=
  match turns with
  | 0 => .holding
  | 1 => .decremented
  | _ + 2 => .done

theorem phaseAfter_ne_holding {turns : Nat} (some : turns ≠ 0) : phaseAfter turns ≠ .holding := by
  cases turns with
  | zero => exact absurd rfl some
  | succ more =>
    cases more with
    | zero => exact nofun
    | succ _ => exact nofun

theorem dropStep_phase_same (state : Dropping) (thread : ThreadId) :
    (dropStep state thread).phase thread =
      match state.phase thread with
      | .holding => .decremented
      | .decremented => .done
      | .done => .done := by
  unfold dropStep
  split <;> simp_all

theorem dropStep_phase_other (state : Dropping) {other : ThreadId} (different : other ≠ thread) :
    (dropStep state thread).phase other = state.phase other := by
  unfold dropStep
  split <;> simp [different]

/-- A thread's phase only depends on the turns it had. -/
theorem dropRun_phase (count : Nat) (schedule : List ThreadId) (thread : ThreadId) :
    (dropRun (dropStart count) schedule).phase thread = phaseAfter (schedule.count thread) := by
  induction schedule using List.reverseRecOn with
  | nil => rfl
  | append_singleton schedule next ih =>
    rw [dropRun_snoc, count_append]
    by_cases same : next = thread
    · subst same
      rw [dropStep_phase_same, ih, count_singleton_self]
      cases turns : schedule.count next with
      | zero => rfl
      | succ more =>
        cases more with
        | zero => rfl
        | succ _ => rfl
    · have noTurn : [next].count thread = 0 := by
        rw [count_eq_zero]
        simpa using Ne.symm same
      rw [dropStep_phase_other _ (.symm same), ih, noTurn]
      rfl

/-- The count goes down once for every thread that had a turn. -/
theorem dropRun_refCount (count : Nat) (schedule : List ThreadId) :
    (dropRun (dropStart count) schedule).refCount = count - schedule.toFinset.card := by
  induction schedule using List.reverseRecOn with
  | nil => simp [dropRun, dropStart]
  | append_singleton schedule next ih =>
    have phase := dropRun_phase count schedule next
    rw [dropRun_snoc, toFinset_append, toFinset_cons, toFinset_nil]
    by_cases before : next ∈ schedule
    · have turns : schedule.count next ≠ 0 := fun zero => count_eq_zero.mp zero before
      have union : schedule.toFinset ∪ insert next ∅ = schedule.toFinset := by
        simpa using before
      rw [union, ← ih]
      unfold dropStep
      split
      · rename_i holding
        rw [holding] at phase
        exact absurd phase.symm (phaseAfter_ne_holding turns)
      · rfl
      · rfl
    · have zero := count_eq_zero.mpr before
      rw [zero] at phase
      have card : (schedule.toFinset ∪ insert next ∅).card = schedule.toFinset.card + 1 := by
        rw [union_comm, insert_union, empty_union,
          card_insert_of_notMem (by simpa using before)]
      unfold dropStep
      rw [phase]
      simp only [phaseAfter, ih]
      omega

/-- As long as somebody has not decremented, nobody frees.

Proof: induction on the turns; the count is positive after each of them. -/
theorem dropRun_early {count : Nat} (early : schedule.toFinset.card < count) :
    (dropRun (dropStart count) schedule).freed = [] := by
  induction schedule using List.reverseRecOn with
  | nil => rfl
  | append_singleton schedule next ih =>
    have fewer : schedule.toFinset.card ≤ (schedule ++ [next]).toFinset.card := by
      apply card_le_card
      rw [toFinset_append]
      exact subset_union_left
    have nobody := ih (by omega)
    have positive : (dropRun (dropStart count) schedule).refCount ≠ 0 := by
      rw [dropRun_refCount]
      omega
    rw [dropRun_snoc]
    unfold dropStep
    split
    · exact nobody
    · simpa [positive] using nobody
    · exact nobody

/-- Once the count is zero, every thread that has still to load frees. -/
theorem dropRun_late (zero : state.refCount = 0)
    (decremented : ∀ thread ∈ schedule, state.phase thread = .decremented) (nodup : schedule.Nodup) :
    (dropRun state schedule).freed = state.freed ++ schedule := by
  induction schedule generalizing state with
  | nil => simp [dropRun]
  | cons next rest ih =>
    obtain ⟨absent, nodupRest⟩ := nodup_cons.mp nodup
    have step : dropStep state next =
        { state with
          phase := update state.phase next .done
          freed := state.freed ++ [next] } := by
      unfold dropStep
      rw [decremented next mem_cons_self]
      simp [zero]
    have later : ∀ thread ∈ rest, (dropStep state next).phase thread = .decremented := by
      intro thread member
      rw [dropStep_phase_other]
      · exact decremented thread (mem_cons_of_mem next member)
      · rintro rfl
        exact absent member
    change (dropRun _ rest).freed = _
    rw [ih (by rw [step]; exact zero) later nodupRest, step]
    simp

/-- A list splits at the last entry that is not a repetition. -/
theorem exists_last_new (nonempty : schedule ≠ []) :
    ∃ early last late, schedule = early ++ last :: late ∧ last ∉ early ∧
      ∀ thread ∈ late, thread ∈ early ∨ thread = last := by
  induction schedule using List.reverseRecOn with
  | nil => exact absurd rfl nonempty
  | append_singleton schedule next ih =>
    by_cases repeated : next ∈ schedule
    · obtain ⟨early, last, late, split, isNew, old⟩ :=
        ih (ne_nil_of_mem repeated)
      refine ⟨early, last, late ++ [next], by simp [split], isNew, ?_⟩
      intro thread member
      rcases mem_append.mp member with inLate | isNext
      · exact old thread inLate
      · rw [List.mem_singleton.mp isNext]
        rw [split] at repeated
        simp only [mem_append, List.mem_cons] at repeated
        rcases repeated with inEarly | isLast | inLate
        · exact .inl inEarly
        · exact .inr isLast
        · exact old next inLate
    · exact ⟨schedule, next, [], rfl, repeated, by simp⟩

/-- The threads that free are exactly those whose load comes after the last
decrement. -/
theorem dropRun_freed {holders : Finset ThreadId} {early late : List ThreadId} {last : ThreadId}
    (interleaves : Interleaves holders (early ++ last :: late)) (isNew : last ∉ early)
    (old : ∀ thread ∈ late, thread ∈ early ∨ thread = last) :
    late.Nodup ∧ late.count last = 1 ∧
      (dropRun (dropStart holders.card) (early ++ last :: late)).freed = late := by
  have twice : ∀ thread ∈ holders, early.count thread + [last].count thread +
      late.count thread = 2 := by
    intro thread member
    rw [← interleaves.twice thread member, append_cons, count_append, count_append]
  have everybody : insert last early.toFinset = holders := by
    ext thread
    simp only [mem_insert, mem_toFinset]
    constructor
    · rintro (rfl | inEarly)
      · exact interleaves.only thread (by simp)
      · exact interleaves.only thread (by simp [inEarly])
    · intro member
      have inSchedule : thread ∈ early ++ last :: late := by
        rw [← count_pos_iff, interleaves.twice thread member]
        omega
      simp only [mem_append, List.mem_cons] at inSchedule
      rcases inSchedule with inEarly | rfl | inLate
      · exact .inr inEarly
      · exact .inl rfl
      · exact (old thread inLate).symm
  have card : early.toFinset.card + 1 = holders.card := by
    rw [← everybody, card_insert_of_notMem (by simpa using isNew)]
  have lastTwice := twice last (by rw [← everybody]; exact mem_insert_self _ _)
  rw [count_eq_zero.mpr isNew, count_singleton_self] at lastTwice
  have once : ∀ thread ∈ late, (early ++ [last]).count thread = 1 ∧ late.count thread = 1 := by
    intro thread member
    have inBefore : thread ∈ early ++ [last] := by simpa using old thread member
    have before := count_pos_iff.mpr inBefore
    have after := count_pos_iff.mpr member
    have total := twice thread (interleaves.only thread (by simp [member]))
    rw [count_append] at before ⊢
    omega
  have nodup : late.Nodup := by
    rw [nodup_iff_count_le_one]
    intro thread
    by_cases member : thread ∈ late
    · rw [(once thread member).2]
    · rw [count_eq_zero.mpr member]
      omega
  refine ⟨nodup, by omega, ?_⟩
  have decremented : ∀ thread ∈ late,
      (dropRun (dropStart holders.card) (early ++ [last])).phase thread = .decremented := by
    intro thread member
    rw [dropRun_phase, (once thread member).1]
    rfl
  have zero : (dropRun (dropStart holders.card) (early ++ [last])).refCount = 0 := by
    rw [dropRun_refCount]
    simp [everybody]
  have nobody : (dropRun (dropStart holders.card) (early ++ [last])).freed = [] := by
    have before : (dropRun (dropStart holders.card) early).freed = [] := dropRun_early (by omega)
    have holding := dropRun_phase holders.card early last
    rw [count_eq_zero.mpr isNew] at holding
    rw [dropRun_snoc]
    unfold dropStep
    rw [holding]
    exact before
  rw [append_cons, dropRun_append, dropRun_late zero decremented nodup, nobody, nil_append]

/-- A message whose holders drop it concurrently is freed exactly once if and only if
the schedule ends with both steps of one holder: everybody else has done its load
before the last decrement.

Proof: every load after the last decrement finds zero and frees the message
(`dropRun_freed`), so there must be only one. -/
theorem freed_once_iff {holders : Finset ThreadId} {schedule : List ThreadId}
    (held : holders.Nonempty) (interleaves : Interleaves holders schedule) :
    (dropRun (dropStart holders.card) schedule).freed.length = 1 ↔
      ∃ earlier holder, schedule = earlier ++ [holder, holder] := by
  have nonempty : schedule ≠ [] := by
    rintro rfl
    obtain ⟨thread, member⟩ := held
    have twice := interleaves.twice thread member
    simp at twice
  obtain ⟨early, last, late, rfl, isNew, old⟩ := exists_last_new nonempty
  obtain ⟨nodup, lastOnce, freed⟩ := dropRun_freed interleaves isNew old
  have lastLate : last ∈ late := count_pos_iff.mp (by omega)
  rw [freed]
  constructor
  · intro single
    obtain ⟨thread, only⟩ := length_eq_one_iff.mp single
    rw [only, List.mem_singleton] at lastLate
    exact ⟨early, last, by rw [only, lastLate]⟩
  · rintro ⟨earlier, holder, ends⟩
    have positive := length_pos_of_mem lastLate
    by_contra more
    have pairEnds : [holder, holder] <:+ early ++ last :: late := ⟨earlier, ends.symm⟩
    have lateEnds : late <:+ early ++ last :: late := ⟨early ++ [last], by simp⟩
    have pair : [holder, holder] <:+ late := by
      apply suffix_of_suffix_length_le pairEnds lateEnds
      simp only [length_cons, length_nil]
      omega
    have distinct := pair.sublist.nodup nodup
    simp at distinct

/-- Two holders who decrement before either of them loads both free the message. -/
theorem freed_twice : ¬ ∀ (holders : Finset ThreadId) (schedule : List ThreadId),
    holders.Nonempty → Interleaves holders schedule →
      (dropRun (dropStart holders.card) schedule).freed.length = 1 := by
  intro once
  have interleaves : Interleaves {0, 1} [0, 1, 0, 1] := ⟨by decide, by decide⟩
  have single := once {0, 1} [0, 1, 0, 1] (by decide) interleaves
  revert single
  decide

theorem freed_once_iff_sample :
    (dropRun (dropStart 2) [0, 0, 1, 1]).freed.length = 1 ∧
      ¬ (dropRun (dropStart 2) [0, 1, 1, 0]).freed.length = 1 := by
  have first : Interleaves {0, 1} [0, 0, 1, 1] := ⟨by decide, by decide⟩
  have second : Interleaves {0, 1} [0, 1, 1, 0] := ⟨by decide, by decide⟩
  constructor
  · exact (freed_once_iff (by decide) first).mpr ⟨[0, 0], 1, rfl⟩
  · intro single
    obtain ⟨earlier, holder, ends⟩ := (freed_once_iff (by decide) second).mp single
    have pair : [holder, holder] <:+ [0, 1, 1, 0] := ⟨earlier, ends.symm⟩
    have tail : [1, 0] <:+ ([0, 1, 1, 0] : List ThreadId) := ⟨[0, 1], rfl⟩
    have same := suffix_of_suffix_length_le pair tail (by simp)
    have equal := same.eq_of_length rfl
    simp only [cons.injEq, and_true] at equal
    exact absurd (equal.1.symm.trans equal.2) (by decide)

end Miranda.RawQueue
