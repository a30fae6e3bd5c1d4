import Miranda.Starter.FileWatch

/-!
# Who owns a watch

The invariant of the watches while no event for a removed watch is handled. Most of it is
about one object at a time: its watch is in the map under its descriptor, and an entry in
the map that is not for its watch waits for the `IN_IGNORED` of a removed one. An update of
another object does not touch this, which is the frame rule below; what remains for each
update is the object it changes.
-/

namespace Miranda.Starter

open List

/-! ## The invariant -/

/-- How an object, the map and the history fit together. -/
structure Settled (process : Process) (object : Nat) : Prop where
  owner : ∀ wd, (process.objects object).watch = some wd → process.watchers wd = some object
  /-- An entry in the map belongs to the watch of the object, or to a removed one. -/
  entry : ∀ wd, process.watchers wd = some object →
    (process.objects object).watch = some wd ∨ .removed object ∈ process.history
  /-- A removed object waits for `IN_IGNORED`. -/
  removed : .removed object ∈ process.history → (process.objects object).watch = none ∧
    (process.objects object).watchToRemove ≠ none ∧ object < process.count
  pending : .removed object ∉ process.history → (process.objects object).watchToRemove = none
  /-- Objects that do not exist yet have no watch. -/
  unborn : process.count ≤ object → (process.objects object).watch = none

variable {object wd : Nat} {process : Process}

/-- An object is settled after a step that does not concern it. -/
theorem Settled.frame {before after : Process} (settled : Settled before object)
    (same : after.objects object = before.objects object)
    (entries : ∀ wd, after.watchers wd = some object ↔ before.watchers wd = some object)
    (acts : Act.removed object ∈ after.history ↔ Act.removed object ∈ before.history)
    (grows : before.count ≤ after.count) : Settled after object where
  owner wd watch := (entries wd).mpr (settled.owner wd (same ▸ watch))
  entry wd found := by
    rw [same, acts]
    exact settled.entry wd ((entries wd).mp found)
  removed member := by
    rw [same]
    obtain ⟨missing, waits, born⟩ := settled.removed (acts.mp member)
    exact ⟨missing, waits, Nat.lt_of_lt_of_le born grows⟩
  pending present := by
    rw [same]
    exact settled.pending (fun member => present (acts.mpr member))
  unborn after := by
    rw [same]
    exact settled.unborn (Nat.le_trans grows after)

section

variable (settled : Settled process object)
include settled

/-- An object with a watch has not been removed. -/
theorem Settled.not_removed (watch : (process.objects object).watch = some wd) :
    .removed object ∉ process.history := by
  intro member
  rw [(settled.removed member).1] at watch
  cases watch

theorem Settled.born (watch : (process.objects object).watch = some wd) :
    object < process.count := by
  by_contra later
  rw [settled.unborn (Nat.le_of_not_lt later)] at watch
  cases watch

/-- What leads to an object with a watch is the entry of this watch. -/
theorem Settled.entry_eq {watch : Nat} (found : process.watchers wd = some object)
    (has : (process.objects object).watch = some watch) :
    watch = wd := by
  rcases settled.entry wd found with same | gone
  · exact Option.some.inj (has.symm.trans same)
  · exact absurd gone (settled.not_removed has)

/-- An object without a watch that is still in the map was removed. -/
theorem Settled.waiting (found : process.watchers wd = some object)
    (missing : (process.objects object).watch = none) :
    Act.removed object ∈ process.history ∧
      ∃ held, (process.objects object).watchToRemove = some held := by
  have gone : .removed object ∈ process.history := by
    simpa [missing] using settled.entry wd found
  exact ⟨gone, Option.ne_none_iff_exists'.mp (settled.removed gone).2.1⟩

end

/-- Holds as long as no event for a removed watch was handled. -/
structure Sound (process : Process) : Prop where
  kept : Kept process.history
  settled : ∀ object, Settled process object
  /-- The kernel has not given out the next descriptor. -/
  fresh : ∀ object wd, process.watchers wd = some object → wd < process.kernel.next
  live : ∀ wd ∈ process.kernel.live, ∃ object, (process.objects object).watch = some wd
  /-- `IN_IGNORED` is the last that is heard of a descriptor. -/
  ended : ∀ event ∈ process.kernel.queue, event.ignored = true →
    event.wd < process.kernel.next ∧ event.wd ∉ process.kernel.live

theorem Sound.good (sound : Sound process) : Good process where
  kept := sound.kept
  owner object := (sound.settled object).owner
  live wd member := by
    obtain ⟨object, watch⟩ := sound.live wd member
    exact ⟨object, watch, (sound.settled object).owner wd watch⟩

theorem sound_initial : Sound {} where
  kept := Histories.always_nil
  settled object := by constructor <;> simp
  fresh := by simp
  live := by simp
  ended := by simp

/-! ## The kernel -/

theorem Kernel.rmWatch_not_live (kernel : Kernel) (wd : Nat) :
    wd ∉ (kernel.rmWatch wd).live := by
  by_cases member : wd ∈ kernel.live
  · rw [rmWatch, if_pos member]
    simp
  · rwa [rmWatch, if_neg member]

/-- A step of the kernel is invisible to the program until it handles the event. -/
theorem Sound.kernel (sound : Sound process) {kernel : Kernel}
    (next : kernel.next = process.kernel.next) (live : ∀ wd ∈ kernel.live, wd ∈ process.kernel.live)
    (ended : ∀ event ∈ kernel.queue, event.ignored = true →
      event.wd < kernel.next ∧ event.wd ∉ kernel.live) :
    Sound { process with kernel } where
  kept := sound.kept
  settled object := (sound.settled object).frame rfl (fun _ => .rfl) .rfl (Nat.le_refl _)
  fresh object wd found := next ▸ sound.fresh object wd found
  live wd member := sound.live wd (live wd member)
  ended := ended

theorem Sound.rmWatch (sound : Sound process) (wd : Nat) :
    Sound { process with kernel := process.kernel.rmWatch wd } := by
  by_cases member : wd ∈ process.kernel.live
  · obtain ⟨owner, watch⟩ := sound.live wd member
    rw [Kernel.rmWatch, if_pos member]
    refine sound.kernel rfl (fun other inside => (mem_filter.mp inside).1) ?_
    intro event inside ignored
    rcases mem_append.mp inside with old | new
    · obtain ⟨given, gone⟩ := sound.ended event old ignored
      exact ⟨given, fun inside => gone ((mem_filter.mp inside).1)⟩
    · obtain rfl : event = { wd, ignored := true } := by simpa using new
      exact ⟨sound.fresh owner wd ((sound.settled owner).owner wd watch), by simp⟩
  · rwa [Kernel.rmWatch, if_neg member]

theorem Sound.notify (sound : Sound process) (wd : Nat) (name : Option (List Char)) :
    Sound { process with kernel := process.kernel.notify wd name } := by
  by_cases member : wd ∈ process.kernel.live
  · rw [Kernel.notify, if_pos member]
    refine sound.kernel rfl (fun _ => id) ?_
    intro event inside ignored
    rcases mem_append.mp inside with old | new
    · exact sound.ended event old ignored
    · obtain rfl : event = { wd, ignored := false, name } := by simpa using new
      cases ignored
  · rwa [Kernel.notify, if_neg member]

theorem Sound.taken (sound : Sound process) : Sound process.taken :=
  sound.kernel rfl (fun _ => id) fun event member => sound.ended event (mem_of_mem_tail member)

/-! ## The objects -/

section

variable (sound : Sound process)
include sound

/-- A callback is called. -/
theorem Sound.note_called (watch : (process.objects object).watch = some wd) :
    Sound (process.note (.called object)) :=
  { sound with
    kept := by
      refine Histories.always_snoc.mpr ⟨sound.kept, ?_⟩
      intro other watching
      obtain rfl : object = other := by simpa [Act.watching] using watching
      exact (sound.settled object).not_removed watch
    settled other := (sound.settled other).frame rfl (fun _ => .rfl) (by simp [Process.note])
      (Nat.le_refl _) }

/-- Creating a watch for an object that has none and was not removed. -/
theorem Sound.watched (missing : (process.objects object).watch = none)
    (present : Act.removed object ∉ process.history) (born : object < process.count) :
    Sound (process.watched object) where
  kept := by
    refine Histories.always_snoc.mpr ⟨sound.kept, ?_⟩
    intro other watching
    obtain rfl : object = other := by simpa [Act.watching] using watching
    exact present
  settled other := by
    have unused : process.watchers _ ≠ some other :=
      fun found => Nat.lt_irrefl _ (sound.fresh other _ found)
    by_cases same : other = object
    · subst same
      have before := sound.settled other
      constructor
      · intro wd watch
        obtain rfl : process.kernel.next = wd := by simpa [Process.watched] using watch
        simp [Process.watched]
      · intro wd found
        by_cases new : wd = process.kernel.next
        · simp [Process.watched, new]
        · have old : process.watchers wd = some other := by
            simpa [Process.watched, new] using found
          exact absurd (before.waiting old missing).1 present
      · intro member
        exact absurd (by simpa [Process.watched] using member) present
      · intro _
        simpa [Process.watched] using before.pending present
      · intro after
        exact absurd born (Nat.not_lt_of_le after)
    · refine (sound.settled other).frame ?_ ?_ ?_ (Nat.le_refl _)
      · simp [Process.watched, same]
      · intro wd
        by_cases new : wd = process.kernel.next
        · simp [Process.watched, new, unused, Ne.symm same]
        · simp [Process.watched, new]
      · simp [Process.watched]
  fresh other wd found := by
    by_cases new : wd = process.kernel.next
    · exact new ▸ Nat.lt_succ_self wd
    · have old : process.watchers wd = some other := by simpa [Process.watched, new] using found
      exact Nat.lt_succ_of_lt (sound.fresh other wd old)
  live wd member := by
    rcases mem_append.mp member with old | new
    · obtain ⟨other, has⟩ := sound.live wd old
      have differs : other ≠ object := by
        rintro rfl
        rw [missing] at has
        cases has
      exact ⟨other, by simpa [Process.watched, differs] using has⟩
    · obtain rfl : wd = process.kernel.next := by simpa using new
      exact ⟨object, by simp [Process.watched]⟩
  ended event member ignored := by
    obtain ⟨given, gone⟩ := sound.ended event member ignored
    refine ⟨Nat.lt_succ_of_lt given, ?_⟩
    intro inside
    rcases mem_append.mp inside with old | new
    · exact gone old
    · exact Nat.ne_of_lt given (by simpa using new)

/-- A watch is removed. -/
theorem Sound.unwatched (watch : (process.objects object).watch = some wd) :
    Sound (process.unwatched object wd) where
  kept := Histories.always_snoc.mpr ⟨sound.kept, fun other watching => by cases watching⟩
  settled other := by
    by_cases same : other = object
    · subst same
      have born := (sound.settled other).born watch
      constructor
      · intro held has
        simp [Process.unwatched] at has
      · intro held found
        exact .inr (mem_append_right _ (mem_singleton_self _))
      · intro _
        simpa [Process.unwatched] using born
      · intro present
        exact absurd (mem_append_right _ (mem_singleton_self _)) present
      · intro after
        exact absurd born (Nat.not_lt_of_le after)
    · exact (sound.settled other).frame (by simp [Process.unwatched, same]) (fun _ => .rfl)
        (by simp [Process.unwatched, same]) (Nat.le_refl _)
  fresh := (sound.rmWatch wd).fresh
  live held member := by
    obtain ⟨other, has⟩ := (sound.rmWatch wd).live held member
    have differs : other ≠ object := by
      rintro rfl
      obtain rfl : held = wd := Option.some.inj (has.symm.trans watch)
      exact process.kernel.rmWatch_not_live held member
    exact ⟨other, by simpa [Process.unwatched, differs] using has⟩
  ended := (sound.rmWatch wd).ended

/-- A new object is allocated. -/
theorem Sound.allocated (checkFilename : List Char) :
    Sound (process.allocated checkFilename) where
  kept := sound.kept
  settled other := by
    by_cases same : other = process.count
    · have before := sound.settled other
      have present : .removed other ∉ process.history :=
        fun member => Nat.ne_of_lt (before.removed member).2.2 same
      constructor
      · intro wd has
        simp [Process.allocated, Process.setObject, same] at has
      · intro wd found
        exact .inr (before.waiting found (before.unborn (Nat.le_of_eq same.symm))).1
      · intro member
        exact absurd member present
      · intro _
        simp [Process.allocated, Process.setObject, same]
      · intro _
        simp [Process.allocated, Process.setObject, same]
    · exact (sound.settled other).frame (by simp [Process.allocated, Process.setObject, same])
        (fun _ => .rfl) .rfl (Nat.le_succ _)
  fresh := sound.fresh
  live wd member := by
    obtain ⟨other, has⟩ := sound.live wd member
    have differs := Nat.ne_of_lt ((sound.settled other).born has)
    exact ⟨other, by simpa [Process.allocated, Process.setObject, differs] using has⟩
  ended := sound.ended

/-- An object gives up a watch that has ended, and its entry in the map. -/
theorem Sound.released (watch : (process.objects object).watch = some wd)
    (ended : wd ∉ process.kernel.live) :
    Sound ((process.forget object wd).setObject object
      { process.objects object with watch := none }) := by
  have own := sound.settled object
  have mapped := own.owner wd watch
  rw [Process.forget, if_pos mapped]
  exact
    { kept := sound.kept
      settled := by
        intro other
        by_cases same : other = object
        · subst same
          constructor
          · intro held has
            simp [Process.setObject] at has
          · intro held found
            by_cases erased : held = wd
            · simp [Process.setObject, erased] at found
            · have old : process.watchers held = some other := by
                simpa [Process.setObject, erased] using found
              exact absurd (own.entry_eq old watch).symm erased
          · intro member
            exact absurd member (own.not_removed watch)
          · intro present
            simpa [Process.setObject] using own.pending present
          · intro _
            simp [Process.setObject]
        · refine (sound.settled other).frame (by simp [Process.setObject, same]) ?_ .rfl
            (Nat.le_refl _)
          intro held
          by_cases erased : held = wd
          · simp [Process.setObject, erased, mapped, Ne.symm same]
          · simp [Process.setObject, erased]
      fresh := by
        intro other held found
        by_cases erased : held = wd
        · simp [Process.setObject, erased] at found
        · exact sound.fresh other held (by simpa [Process.setObject, erased] using found)
      live := by
        intro held member
        obtain ⟨other, has⟩ := sound.live held member
        have differs : other ≠ object := by
          rintro rfl
          obtain rfl : held = wd := Option.some.inj (has.symm.trans watch)
          exact ended member
        exact ⟨other, by simpa [Process.setObject, differs] using has⟩
      ended := sound.ended }

end

end Miranda.Starter
