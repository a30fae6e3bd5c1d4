import Miranda.LogFile.Live

/-!
# Following a live log

The reader decides by several loads of one marker word, and the writer may set the
word between them. If the reader has seen that the word is not the end marker, the
writer then ends the page, and the reader's test against zero sees the end marker,
the reader takes the page end for a record and returns bytes nobody wrote.
-/

namespace Miranda.LogFile

open Bytes Paged Runs List

/-- What both sides can rely on while a record is being stored: everything
published is there and the marker after it is still zero. -/
structure Visible (image : Image) (layout : Pages) : Prop where
  shown : ∀ address record, (address, record) ∈ layout.placed kPageSize →
    Shows image address record
  turned : ∀ number page, layout.closed[number]? = some page →
    marker image (number * kPageSize + extent Record.weight page) = 2
  fresh : marker image (layout.cursor kPageSize) = 0

/-- The writer's side of a live log that stands for a layout. While a record is
being stored the image is that of a readable file with some of the parts over it. -/
def Writing (sizeT : SizeT) (log : LiveLog) (layout : Pages) : Prop :=
  match log.writing with
  | .idle => Laid log.writer layout ∧ log.pages = log.writer.pages
  | .grown => Laid log.writer layout ∧ log.pages = log.writer.pages + 1 ∧ layout.current ≠ []
  | .storing address record parts => ∃ base stored, Laid base layout ∧
      extent Record.weight layout.current + record.weight ≤ pageRoom ∧
      stored ++ parts = recordStores base.place record ∧ address = base.place ∧
      log.writer = { base with
        image := storeAll base.image stored
        position := incrementPosition sizeT base.position record.size } ∧
      log.pages = base.pages

/-- What the reader's phase says about the records ahead of it on its page and the
pages after that. -/
def PhaseFits (reading : ReaderPhase) (ahead : List Record) (later : List (List Record)) : Prop :=
  match reading with
  | .turning _ => ahead = [] ∧ later ≠ []
  | .sizing => ahead ≠ []
  | .sizingMessage nameSize => ∃ record rest, ahead = record :: rest ∧ nameSize = record.name.length
  | .corrupt => False
  | .unreadable => False
  | _ => True

/-- The reader's side: it stands between the records it has returned and those it
has not. -/
structure Reading (log : LiveLog) (layout : Pages) (before : List (List Record))
    (read ahead : List Record) (later : List (List Record)) : Prop where
  pages : layout.pages = before ++ (read ++ ahead) :: later
  page : log.reader.page = before.length
  position : log.reader.position = extent Record.weight read
  returned : log.returned = (before.flatten ++ read).map some
  phase : PhaseFits log.reading ahead later

/-- Both sides agree on a layout. -/
def Following (sizeT : SizeT) (log : LiveLog) : Prop :=
  ∃ layout before read ahead later,
    Writing sizeT log layout ∧ Reading log layout before read ahead later

/-- The last test of the marker does not see the end of a page. -/
def EndSeen (log : LiveLog) (event : LiveEvent) : Prop :=
  event = .testNull → log.readerMarker ≠ 2

instance endSeenDecidable (log : LiveLog) (event : LiveEvent) : Decidable (EndSeen log event) :=
  inferInstanceAs (Decidable (event = .testNull → log.readerMarker ≠ 2))

/-- An access that does not miss the end of a page. -/
def GuardedLiveStep (sizeT : SizeT) (before : LiveLog) (event : LiveEvent) (after : LiveLog) :
    Prop :=
  LiveStep sizeT before event after ∧ EndSeen before event

section Writer

variable {sizeT : SizeT} {log after : LiveLog} {layout : Pages} {writer : LogFileWriter}

theorem Laid.visible (laid : Laid writer layout) : Visible writer.image layout :=
  { laid with
    fresh := loadWord_blank fun index _ => laid.blank _ (Nat.le_add_right _ index) }

/-- At every moment the published records are visible and the file is long enough
for their pages. -/
theorem Writing.visible (writing : Writing sizeT log layout) :
    Visible log.writer.image layout ∧ layout.closed.length < log.pages ∧
      log.writer.published = layout.placed kPageSize := by
  unfold Writing at writing
  split at writing
  · obtain ⟨laid, pages⟩ := writing
    rw [pages, laid.pages]
    exact ⟨laid.visible, Nat.lt_succ_self _, laid.published⟩
  · obtain ⟨laid, pages, _⟩ := writing
    rw [pages, laid.pages]
    exact ⟨laid.visible, by omega, laid.published⟩
  · next address record parts _ =>
    obtain ⟨base, stored, laid, _, split, _, isWriter, pages⟩ := writing
    have inside : ∀ part ∈ stored, part ∈ recordStores base.place record := by
      intro part member
      rw [← split]
      exact mem_append_left _ member
    have agree : ∀ place length, place + length ≤ base.place + 4 →
        Agree _ _ place length :=
      fun place length early => storeAll_agree stored inside base.image (.inl early)
    obtain ⟨shown, turned⟩ := laid.kept fun address below =>
      ((agree address 1 (by rw [laid.place]; omega)) 0 Nat.one_pos).symm
    rw [pages, laid.pages, isWriter]
    refine ⟨⟨shown, turned, ?_⟩, Nat.lt_succ_self _, laid.published⟩
    have same := agree _ 4 (Nat.le_refl _)
    rw [← laid.place, marker_congr same, laid.place]
    exact laid.visible.fresh

end Writer

section Reader

variable {sizeT : SizeT} {log : LiveLog} {layout : Pages} {before later : List (List Record)}
  {read ahead : List Record} {record : Record}

theorem Reading.place (reading : Reading log layout before read ahead later) :
    log.reader.place = before.length * kPageSize + extent Record.weight read := by
  rw [LogFileReader.place, reading.page, reading.position]

/-- A record ahead is published where the reader stands. -/
theorem Reading.shows (reading : Reading log layout before read (record :: ahead) later)
    (visible : Visible log.writer.image layout) :
    Shows log.writer.image log.reader.place record := by
  apply visible.shown
  have isPage : layout.pages[before.length]? = some (read ++ record :: ahead) := by
    simp [reading.pages]
  apply placedFrom_subset isPage
  rw [placedFrom_append, Nat.zero_add, reading.place]
  exact mem_append_right _ mem_cons_self

/-- With nothing ahead the marker is the end marker if there is a later page and
zero if there is none. -/
theorem Reading.marker_nil (reading : Reading log layout before read [] later)
    (visible : Visible log.writer.image layout) :
    log.readerMarker = if later = [] then 0 else 2 := by
  have pages := reading.pages
  rw [LiveLog.readerMarker, reading.place]
  rw [append_nil] at pages
  rcases eq_nil_or_concat later with rfl | ⟨middle, last, rfl⟩
  · obtain ⟨closed, current⟩ := append_inj' pages rfl
    cases current
    have fresh := visible.fresh
    rw [Layout.cursor, closed] at fresh
    simpa using fresh
  · rw [if_neg (by simp)]
    rw [concat_eq_append, ← cons_append, ← append_assoc] at pages
    have closed := (append_inj' pages rfl).1
    apply visible.turned
    rw [closed]
    simp

/-- The end marker is seen only at the end of a page that has a successor. -/
theorem Reading.of_ended (reading : Reading log layout before read ahead later)
    (visible : Visible log.writer.image layout) (ended : log.readerMarker = 2) :
    ahead = [] ∧ later ≠ [] := by
  cases ahead with
  | nil =>
    rw [reading.marker_nil visible] at ended
    refine ⟨rfl, fun none => ?_⟩
    rw [if_pos none] at ended
    cases ended
  | cons record rest =>
    rw [LiveLog.readerMarker, (reading.shows visible).published] at ended
    cases ended

/-- Another marker than zero and the end marker belongs to a record. -/
theorem Reading.of_record (reading : Reading log layout before read ahead later)
    (visible : Visible log.writer.image layout) (something : log.readerMarker ≠ 0)
    (within : log.readerMarker ≠ 2) : ahead ≠ [] := by
  rintro rfl
  rw [reading.marker_nil visible] at something within
  split at something
  · exact something rfl
  · next more => exact within (if_neg more)

end Reader

variable {ahead : List Record} {reading : ReaderPhase}

/-- Pages that come later do not disturb a phase. -/
theorem PhaseFits.further {later : List (List Record)} (fits : PhaseFits reading ahead later)
    (further : List (List Record)) (longer : later ≠ [] → further ≠ []) :
    PhaseFits reading ahead further := by
  cases reading with
  | turning wait => exact ⟨fits.1, longer fits.2⟩
  | _ => exact fits

/-- Neither do records added to the last page. -/
theorem PhaseFits.more (fits : PhaseFits reading ahead []) (more : List Record) :
    PhaseFits reading (ahead ++ more) [] := by
  cases reading with
  | turning wait => exact absurd rfl fits.2
  | sizing => exact append_ne_nil_of_left_ne_nil fits more
  | sizingMessage nameSize =>
    obtain ⟨record, rest, rfl, size⟩ := fits
    exact ⟨record, rest ++ more, rfl, size⟩
  | _ => exact fits

section WriterSteps

variable {sizeT : SizeT} {log after : LiveLog} {layout : Pages}
  {before later : List (List Record)} {read ahead : List Record} {event : LiveEvent}

/-- A new page comes after all pages the reader knows of. -/
theorem Reading.turn (reading : Reading log layout before read ahead later)
    (filled : layout.current ≠ []) :
    Reading log (layout.turn filled) before read ahead (later ++ [[]]) :=
  { reading with
    pages := by
      show layout.pages ++ [[]] = _
      rw [reading.pages]
      simp
    phase := reading.phase.further _ (by simp) }

/-- A new record comes after all records the reader knows of. -/
theorem Reading.add (reading : Reading log layout before read ahead later) {record : Record}
    (room : extent Record.weight layout.current + record.weight ≤ pageRoom) :
    ∃ ahead later, Reading log (layout.add record room) before read ahead later := by
  have pages := reading.pages
  rcases eq_nil_or_concat later with rfl | ⟨middle, last, rfl⟩
  · obtain ⟨closed, current⟩ := append_inj' pages rfl
    refine ⟨ahead ++ [record], [], ?_, reading.page, reading.position, reading.returned, ?_⟩
    · show layout.closed ++ [layout.current ++ [record]] = _
      rw [closed, singleton_inj.mp current, append_assoc]
    · exact reading.phase.more [record]
  · rw [concat_eq_append, ← cons_append, ← append_assoc] at pages
    obtain ⟨closed, current⟩ := append_inj' pages rfl
    refine ⟨ahead, middle ++ [last ++ [record]], ?_, reading.page, reading.position,
      reading.returned, ?_⟩
    · show layout.closed ++ [layout.current ++ [record]] = _
      rw [closed, singleton_inj.mp current]
      simp
    · exact reading.phase.further _ (by simp)

/-- Every access of the writer keeps both sides in agreement. -/
theorem writerStep_following (following : Following sizeT log)
    (taken : log.writerStep sizeT event = some after) : Following sizeT after := by
  obtain ⟨layout, before, read, ahead, later, writing, reading⟩ := following
  cases event with
  | grow =>
    simp only [LiveLog.writerStep] at taken
    split at taken
    · next idle =>
      split at taken
      · next moved =>
        cases taken
        simp only [Writing, idle] at writing
        obtain ⟨laid, _⟩ := writing
        refine ⟨layout, before, read, ahead, later, ⟨laid, rfl, ?_⟩, { reading with }⟩
        intro nothing
        rw [laid.position, nothing] at moved
        exact Nat.lt_irrefl 0 moved
      · cases taken
    · cases taken
  | endPage =>
    simp only [LiveLog.writerStep] at taken
    split at taken
    · next grown =>
      cases taken
      simp only [Writing, grown] at writing
      obtain ⟨laid, pages, filled⟩ := writing
      exact ⟨layout.turn filled, before, read, ahead, later ++ [[]],
        ⟨laid.forceNewPage filled, pages⟩, { reading.turn filled with }⟩
    · cases taken
  | begin record =>
    simp only [LiveLog.writerStep] at taken
    split at taken
    · next idle =>
      split at taken
      · cases taken
      · next stays =>
        cases taken
        simp only [Writing, idle] at writing
        obtain ⟨laid, pages⟩ := writing
        have room := not_not.mp (laid.needNewPageFor_iff.not.mp stays)
        exact ⟨layout, before, read, ahead, later,
          ⟨log.writer, [], laid, room, rfl, rfl, rfl, pages⟩, { reading with }⟩
    · cases taken
  | storePart =>
    simp only [LiveLog.writerStep] at taken
    split at taken
    · next address record part rest storing =>
      cases taken
      simp only [Writing, storing] at writing
      obtain ⟨base, stored, laid, room, split, isAddress, isWriter, pages⟩ := writing
      refine ⟨layout, before, read, ahead, later,
        ⟨base, stored ++ [part], laid, room, by rw [← split]; simp, isAddress, ?_, pages⟩,
        { reading with }⟩
      rw [isWriter]
      simp [storeAll]
    · cases taken
  | publish =>
    simp only [LiveLog.writerStep] at taken
    split at taken
    · next address record storing =>
      cases taken
      simp only [Writing, storing] at writing
      obtain ⟨base, stored, laid, room, split, rfl, isWriter, pages⟩ := writing
      rw [append_nil] at split
      obtain ⟨ahead, later, added⟩ := reading.add room
      refine ⟨layout.add record room, before, read, ahead, later, ⟨?_, ?_⟩,
        { added with }⟩
      · have written := laid.publish sizeT room
        rw [isWriter, split]
        exact written
      · rw [isWriter]
        exact pages
    · cases taken
  | _ => cases taken

end WriterSteps

section ReaderSteps

variable {sizeT : SizeT} {log after : LiveLog} {layout : Pages}
  {before later : List (List Record)} {read ahead : List Record} {event : LiveEvent}

/-- A change of phase only has to fit what lies ahead. -/
theorem Reading.rephase (reading : Reading log layout before read ahead later)
    {phase : ReaderPhase} (fits : PhaseFits phase ahead later) :
    Reading { log with reading := phase } layout before read ahead later :=
  { reading with
    phase := fits }

/-- Going to the next page passes no record, and the page exists. -/
theorem Reading.nextPage {page : List Record} {later : List (List Record)} {wait : Bool}
    (reading : Reading log layout before read [] (page :: later))
    (long : layout.closed.length < log.pages) :
    Reading { log with
      reader := log.reader.nextPage
      reading := if log.reader.nextPage.page < log.pages then .looping wait else .unreadable }
      layout (before ++ [read]) [] page later where
  pages := by
    rw [reading.pages]
    simp
  page := by
    show log.reader.page + 1 = _
    rw [reading.page]
    simp
  position := rfl
  returned := by
    rw [reading.returned]
    simp
  phase := by
    have count := congrArg List.length reading.pages
    simp only [Layout.pages, length_append, length_cons, length_nil] at count
    have present : log.reader.nextPage.page < log.pages := by
      show log.reader.page + 1 < log.pages
      rw [reading.page]
      omega
    simp only [if_pos present]
    trivial

/-- Returning the record ahead moves it behind the reader. -/
theorem Reading.take {record : Record}
    (reading : Reading log layout before read (record :: ahead) later)
    (contents : loadRecord log.writer.image log.reader.place = some record) :
    Reading { log with
      reader := { log.reader with position := log.reader.position + record.weight }
      reading := .idle
      returned := log.returned ++ [loadRecord log.writer.image log.reader.place] }
      layout before (read ++ [record]) ahead later where
  pages := by
    rw [reading.pages]
    simp
  page := reading.page
  position := by
    show log.reader.position + record.weight = _
    rw [reading.position]
    simp
  returned := by
    show log.returned ++ [loadRecord _ _] = _
    rw [contents, reading.returned]
    simp
  phase := trivial

/-- The position after the record ahead is still on the page. -/
theorem Reading.advanced (sizeT : SizeT) {record : Record}
    (reading : Reading log layout before read (record :: ahead) later) :
    log.reader.advanced sizeT record.name.length record.message.length =
        log.reader.position + record.weight ∧
      log.reader.position + record.weight < kPageSize := by
  have fits := layout.pages_fit (read ++ record :: ahead) (by rw [reading.pages]; simp)
  have inside : log.reader.position + record.weight < kPageSize := by
    rw [reading.position]
    simp only [extent_append, extent_cons, pageRoom, futexSize, kPageSize] at fits ⊢
    omega
  have aligned : log.reader.position % kAlignment = 0 := by
    rw [reading.position]
    exact Nat.mod_eq_zero_of_dvd (dvd_extent aligned_weight)
  exact ⟨LogFileReader.advanced_eq sizeT aligned inside, inside⟩

/-- Every access of the reader keeps both sides in agreement, as long as its last
test of a marker does not see an end marker. -/
theorem readerStep_following (following : Following sizeT log)
    (taken : log.readerStep sizeT event = some after) (seen : EndSeen log event) :
    Following sizeT after := by
  obtain ⟨layout, before, read, ahead, later, writing, reading⟩ := following
  obtain ⟨visible, long, _⟩ := writing.visible
  have rephase : ∀ phase, PhaseFits phase ahead later →
      Following sizeT { log with reading := phase } := fun phase fits =>
    ⟨layout, before, read, ahead, later, writing, reading.rephase fits⟩
  have phaseFits := reading.phase
  cases event with
  | call wait =>
    simp only [LiveLog.readerStep] at taken
    split at taken
    · cases taken
      apply rephase
      cases wait <;> trivial
    · cases taken
  | waited interrupted =>
    simp only [LiveLog.readerStep] at taken
    split at taken
    · cases taken
      apply rephase
      cases interrupted <;> trivial
    · cases taken
  | testEnd =>
    simp only [LiveLog.readerStep] at taken
    split at taken
    · cases taken
      apply rephase
      split
      · next ended => exact reading.of_ended visible ended
      · trivial
    · cases taken
  | mapNextPage =>
    simp only [LiveLog.readerStep] at taken
    split at taken
    · next wait turning =>
      cases taken
      rw [turning] at phaseFits
      obtain ⟨rfl, more⟩ := phaseFits
      obtain ⟨page, rest, rfl⟩ := exists_cons_of_ne_nil more
      exact ⟨layout, before ++ [read], [], page, rest, writing,
        reading.nextPage long⟩
    · cases taken
  | testLoop =>
    simp only [LiveLog.readerStep] at taken
    split at taken
    · cases taken
      apply rephase
      split <;> trivial
    · cases taken
  | testNull =>
    simp only [LiveLog.readerStep] at taken
    split at taken
    · cases taken
      apply rephase
      split
      · trivial
      · next something => exact reading.of_record visible something (seen rfl)
    · cases taken
  | loadNameSize =>
    simp only [LiveLog.readerStep] at taken
    split at taken
    · next sizing =>
      cases taken
      rw [sizing] at phaseFits
      obtain ⟨record, rest, rfl⟩ := exists_cons_of_ne_nil phaseFits
      apply rephase
      exact ⟨record, rest, rfl, (loadRecord_size (reading.shows visible).contents).1⟩
    · cases taken
  | loadMessageSize =>
    simp only [LiveLog.readerStep] at taken
    split at taken
    · next nameLength sizing =>
      rw [sizing] at phaseFits
      obtain ⟨record, rest, rfl, rfl⟩ := phaseFits
      have contents := (reading.shows visible).contents
      obtain ⟨position, inside⟩ := reading.advanced sizeT
      rw [(loadRecord_size contents).2, position, if_neg (Nat.not_le.mpr inside)] at taken
      cases taken
      exact ⟨layout, before, read ++ [record], rest, later, writing,
        reading.take contents⟩
    · cases taken
  | _ => cases taken

end ReaderSteps

theorem start_following (sizeT : SizeT) : Following sizeT LiveLog.start :=
  ⟨.empty _ pageRoom, [], [], [], [], ⟨.create, rfl⟩,
    { pages := rfl, page := rfl, position := rfl, returned := rfl, phase := trivial }⟩

theorem guardedLiveStep_following {sizeT : SizeT} {before after : LiveLog} {event : LiveEvent}
    (following : Following sizeT before) (step : GuardedLiveStep sizeT before event after) :
    Following sizeT after := by
  obtain ⟨taken, seen⟩ := step
  rcases taken with written | read
  · exact writerStep_following following written
  · exact readerStep_following following read seen

/-- In every run in which the reader's last test of a marker never sees an end
marker, the returned records are a prefix of the published ones, the reader is on a
page of the file and neither of its fatal errors happens.

Proof: by induction on the run the layout is what was read and what is ahead, and the
reader's phase says no more than that (`Following`). -/
theorem live_log_followed (sizeT : SizeT) (events : List LiveEvent) (final : LiveLog)
    (run : Run (GuardedLiveStep sizeT) LiveLog.start events final) :
    final.returned <+: (final.writer.published.map fun entry => some entry.2) ∧
      final.reader.page < final.pages ∧ final.reading ≠ .corrupt ∧ final.reading ≠ .unreadable := by
  have following : Following sizeT final := run.invariant (start_following sizeT)
    fun _ _ _ following step => guardedLiveStep_following following step
  obtain ⟨layout, before, read, ahead, later, writing, reading⟩ := following
  obtain ⟨_, long, published⟩ := writing.visible
  refine ⟨?_, ?_, ?_, ?_⟩
  · have records : (final.writer.published.map fun entry => some entry.2) =
        (layout.pages.flatten).map some := by
      rw [published, ← map_snd_placedPages, map_map]
      rfl
    rw [records, reading.pages, reading.returned]
    exact ⟨(ahead ++ later.flatten).map some, by simp⟩
  · have count := congrArg List.length reading.pages
    simp only [Layout.pages, length_append, length_cons, length_nil] at count
    rw [reading.page]
    omega
  · intro corrupt
    have fits := reading.phase
    rw [corrupt] at fits
    exact fits
  · intro unreadable
    have fits := reading.phase
    rw [unreadable] at fits
    exact fits

/-- A short record. -/
def liveRecord : Record where
  timeSec := 1
  timeNsec := 2
  source := 3
  sequence := 4
  kind := .kString
  level := 1
  name := [112]
  message := [104, 105]

/-- The record is written while the reader starts a call, and then returned. A second one is
written on the next page, to which the reader follows. -/
def followedEvents : List LiveEvent :=
  [.begin liveRecord, .call true] ++ List.replicate 10 .storePart ++
    [.waited true, .testLoop, .publish, .waited false, .testEnd, .testLoop, .testNull,
      .loadNameSize, .loadMessageSize, .call true, .grow, .endPage, .begin liveRecord] ++
    List.replicate 10 .storePart ++ [.waited false, .testEnd, .mapNextPage, .testLoop, .publish,
      .waited false, .testEnd, .testLoop, .testNull, .loadNameSize, .loadMessageSize]

/-- The condition holds of a run in which a waiting reader is interrupted once, returns a
record and changes the page. -/
theorem live_log_followed_sample : ∃ events final,
    Run (GuardedLiveStep .bits64) LiveLog.start events final ∧
      final.reader.page = 1 ∧ final.returned = [some liveRecord, some liveRecord] ∧
      final.returned <+: (final.writer.published.map fun entry => some entry.2) := by
  have executed : (followedEvents.foldlM (fun log event =>
      if EndSeen log event then log.step .bits64 event else none) .start).map
        (fun log => (log.reader.page, log.returned)) =
          some (1, [some liveRecord, some liveRecord]) := by
    decide +kernel
  obtain ⟨final, isFinal, values⟩ := Option.map_eq_some_iff.mp executed
  obtain ⟨page, returned⟩ := Prod.mk.inj values
  have run : Run (GuardedLiveStep .bits64) .start ([] ++ followedEvents) final := by
    apply Run.of_foldlM _ (.nil _) _ isFinal
    intro log event after taken
    split at taken
    · next seen => exact ⟨.of_step taken, seen⟩
    · cases taken
  exact ⟨_, final, run, page, returned, (live_log_followed .bits64 _ final run).1⟩

/-- The reader returns the record; in its next call it waits, the writer ends the page, the
wait is interrupted, and the reader goes on to its last test. -/
def missedEvents : List LiveEvent :=
  [.begin liveRecord] ++ List.replicate 10 .storePart ++
    [.publish, .call false, .testEnd, .testLoop, .testNull, .loadNameSize, .loadMessageSize,
      .call true, .grow, .endPage, .waited true, .testLoop, .testNull, .loadNameSize,
      .loadMessageSize]

/-- The reader then returns the end of the page as a second record. -/
theorem live_log_returns_page_end : ∃ events final,
    Run (LiveStep .bits64) LiveLog.start events final ∧
      final.writer.published.map Prod.snd = [liveRecord] ∧ final.returned.length = 2 ∧
      ¬ final.returned <+: (final.writer.published.map fun entry => some entry.2) := by
  have executed : (missedEvents.foldlM (LiveLog.step .bits64) .start).map
      (fun log => (log.writer.published.map Prod.snd, log.returned.length)) =
        some ([liveRecord], 2) := by
    decide +kernel
  obtain ⟨final, isFinal, values⟩ := Option.map_eq_some_iff.mp executed
  obtain ⟨published, returned⟩ := Prod.mk.inj values
  refine ⟨_, final, .of_foldlM (fun _ _ _ => .of_step) (.nil _) missedEvents isFinal,
    published, returned, ?_⟩
  intro isPrefix
  have short := isPrefix.length_le
  have written := congrArg List.length published
  rw [length_map] at short written
  rw [returned, written] at short
  exact absurd short (by decide)

end Miranda.LogFile
