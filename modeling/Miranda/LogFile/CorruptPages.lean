import Miranda.Lib.Access
import Miranda.Lib.Runs
import Miranda.LogFile.Accessor

/-!
# Reading pages that nobody wrote properly

A log file can be damaged, so its pages may hold any bytes. `ReadNextMessage` should then
still read nothing outside of the page that is mapped, and not return a record that leaves
the page. The reader is repeated here with every access through a window of the mapped
page, and a call that reads outside of it has no result.

The marker of the next record is always on the page, because positions are aligned. The
sizes of its name and its message are not: they stand sixteen bytes and more into the
header, and the position may be the last or the next to last one of the page. The
position that is checked is computed in `size_t`; with 32 bits the sum of the sizes can go
around and end on the page again, while the record does not.
-/

namespace Miranda.LogFile

open Bytes Runs Option

/-- The reader after a call that returns. -/
def ReadResult.reader : ReadResult → Option LogFileReader
  | message _ reader => some reader
  | null reader => some reader
  | corrupt => none
  | unreadable => none

namespace LogFileReader

/-- The page that is mapped. -/
def mapped (file : PagedFile) (reader : LogFileReader) : Window :=
  ⟨file.image, reader.page * kPageSize, kPageSize⟩

/-- The end of `ReadNextMessage` with every access on the mapped page. -/
def fetchRecord (sizeT : SizeT) (file : PagedFile) (reader : LogFileReader) :
    Option ReadResult := do
  let marker ← (reader.mapped file).fetchWord reader.place 4
  if marker = 0 then some (.null reader)
  else do
    let nameSize ← (reader.mapped file).fetchWord (reader.place + 16) 4
    let messageSize ← (reader.mapped file).fetchWord (reader.place + 20) 4
    let position := reader.advanced sizeT nameSize messageSize
    if kPageSize ≤ position then some .corrupt
    else some (.message reader.place { reader with position := position })

/-- `ReadNextMessage(false)` with every access on the mapped page. -/
def fetchNextMessage (sizeT : SizeT) (file : PagedFile) (reader : LogFileReader) :
    Option ReadResult := do
  let marker ← (reader.mapped file).fetchWord reader.place 4
  if marker = 2 then
    if reader.nextPage.page < file.pages then reader.nextPage.fetchRecord sizeT file
    else some .unreadable
  else reader.fetchRecord sizeT file

/-- A call that reads on its page and returns. -/
def Calls (sizeT : SizeT) (file : PagedFile) (reader : LogFileReader) (result : ReadResult)
    (next : LogFileReader) : Prop :=
  reader.fetchNextMessage sizeT file = some result ∧ result.reader = some next

/-- Positions are aligned and on the page. -/
def OnPage (reader : LogFileReader) : Prop :=
  reader.position % kAlignment = 0 ∧ reader.position < kPageSize

/-- Where the header of the record at a position and everything behind it ends. -/
def recordEnd (file : PagedFile) (reader : LogFileReader) : Nat :=
  reader.position + headerSize + nameSize file.image reader.place +
    messageSize file.image reader.place

/-- What a call may end with: a record on the mapped page, NULL, or the error for corrupt
files. -/
def Acceptable (file : PagedFile) : ReadResult → Prop
  | .message address reader =>
    reader.page * kPageSize ≤ address ∧
      address + headerSize + nameSize file.image address + messageSize file.image address ≤
        (reader.page + 1) * kPageSize
  | .null _ => True
  | .corrupt => True
  | .unreadable => False

/-- A call that reads on its page and ends acceptably. -/
def RejectsCorruption (sizeT : SizeT) (file : PagedFile) (reader : LogFileReader) : Prop :=
  ∃ result, reader.fetchNextMessage sizeT file = some result ∧ Acceptable file result

/-- There is no record at a position, or its sizes are on the page and its end is too, or
is seen to be beyond it. -/
def Sound (sizeT : SizeT) (file : PagedFile) (reader : LogFileReader) : Prop :=
  marker file.image reader.place = 0 ∨
    reader.position + 24 ≤ kPageSize ∧
      (reader.recordEnd file ≤ kPageSize ∨
        kPageSize - kAlignment ≤ reader.recordEnd file % sizeT.modulus ∧
          reader.recordEnd file % sizeT.modulus < sizeT.modulus - kAlignment)

variable {sizeT : SizeT} {file : PagedFile} {reader : LogFileReader}

theorem onPage_nextPage (reader : LogFileReader) : reader.nextPage.OnPage :=
  ⟨rfl, show 0 < kPageSize by decide⟩

theorem advanced_aligned (sizeT : SizeT) (reader : LogFileReader) (nameSize messageSize : Nat) :
    reader.advanced sizeT nameSize messageSize % kAlignment = 0 := by
  cases sizeT <;> simp only [advanced, incrementPosition, kAlignment, SizeT.modulus] <;> omega

/-- The position after a record, in terms of where the record ends. -/
theorem advanced_recordEnd (sizeT : SizeT) (file : PagedFile) (reader : LogFileReader) :
    reader.advanced sizeT (nameSize file.image reader.place) (messageSize file.image reader.place) =
      (reader.recordEnd file % sizeT.modulus +
        (kAlignment - reader.recordEnd file % sizeT.modulus % kAlignment)) % sizeT.modulus := by
  rw [advanced, incrementPosition, Nat.add_mod_mod, recordEnd, Nat.add_assoc reader.position,
    Nat.add_assoc reader.position]

/-- The check sees the end of a record where it has not gone around. -/
theorem seen_iff (sizeT : SizeT) (total : Nat) :
    kPageSize ≤ (total % sizeT.modulus + (kAlignment - total % sizeT.modulus % kAlignment)) %
        sizeT.modulus ↔
      kPageSize - kAlignment ≤ total % sizeT.modulus ∧
        total % sizeT.modulus < sizeT.modulus - kAlignment := by
  cases sizeT <;> simp only [SizeT.modulus, kPageSize, kAlignment] <;> omega

/-- The marker is on the page. -/
theorem fetchWord_marker (onPage : reader.OnPage) :
    (reader.mapped file).fetchWord reader.place 4 = some (marker file.image reader.place) := by
  obtain ⟨aligned, below⟩ := onPage
  simp only [kAlignment, kPageSize] at aligned below
  apply Window.fetchWord_inside
  · exact Nat.le_add_right _ _
  · simp only [mapped, place, kPageSize]
    omega

/-- So are the sizes, unless the position is one of the last two. -/
theorem fetchWord_sizes (room : reader.position + 24 ≤ kPageSize) :
    (reader.mapped file).fetchWord (reader.place + 16) 4 =
        some (nameSize file.image reader.place) ∧
      (reader.mapped file).fetchWord (reader.place + 20) 4 =
        some (messageSize file.image reader.place) := by
  simp only [kPageSize] at room
  have inside : ∀ offset ≤ 20, (reader.mapped file).fetchWord (reader.place + offset) 4 =
      some (loadWord file.image (reader.place + offset) 4) := by
    intro offset early
    apply Window.fetchWord_inside
    · simp only [mapped, place, kPageSize]
      omega
    · simp only [mapped, place, kPageSize]
      omega
  exact ⟨inside 16 (by decide), inside 20 (by decide)⟩

/-- Unless sizes are read at the last two positions, everything is read on the page. -/
theorem fetchRecord_eq (onPage : reader.OnPage)
    (room : marker file.image reader.place = 0 ∨ reader.position + 24 ≤ kPageSize) :
    reader.fetchRecord sizeT file = some (reader.finishRead sizeT file) := by
  rw [fetchRecord, finishRead, fetchWord_marker onPage, bind_eq_bind, bind_some]
  by_cases blank : marker file.image reader.place = 0
  · rw [if_pos blank, if_pos blank]
  · obtain ⟨isName, isMessage⟩ := @fetchWord_sizes file reader (room.resolve_left blank)
    rw [if_neg blank, isName, bind_some, isMessage, bind_some]
    dsimp only
    split
    · rfl
    · rfl

/-- At the last two positions, the sizes are read from outside of the page. -/
theorem fetchRecord_outside (onPage : reader.OnPage)
    (late : ¬ (marker file.image reader.place = 0 ∨ reader.position + 24 ≤ kPageSize)) :
    reader.fetchRecord sizeT file = none := by
  obtain ⟨begun, late⟩ := not_or.mp late
  obtain ⟨aligned, below⟩ := onPage
  have outside : (reader.mapped file).fetchWord (reader.place + 16) 4 = none := by
    simp only [kAlignment, kPageSize] at aligned below late
    apply Window.fetchWord_outside
    simp only [mapped, place, kPageSize]
    omega
  rw [fetchRecord, fetchWord_marker ⟨aligned, below⟩, bind_eq_bind, bind_some,
    if_neg begun, outside]
  rfl

variable {result : ReadResult} {next : LogFileReader}

/-- What is found on the page is what the reader finds. -/
theorem finishRead_of_fetch (onPage : reader.OnPage)
    (returned : reader.fetchRecord sizeT file = some result) :
    (marker file.image reader.place = 0 ∨ reader.position + 24 ≤ kPageSize) ∧
      reader.finishRead sizeT file = result := by
  by_cases room : marker file.image reader.place = 0 ∨ reader.position + 24 ≤ kPageSize
  · rw [fetchRecord_eq onPage room] at returned
    exact ⟨room, some.inj returned⟩
  · rw [fetchRecord_outside onPage room] at returned
    cases returned

/-- A call that reads on its page is a call of `ReadNextMessage`. -/
theorem readNextMessage_of_fetch (onPage : reader.OnPage)
    (returned : reader.fetchNextMessage sizeT file = some result) :
    reader.readNextMessage sizeT file = result := by
  rw [fetchNextMessage, fetchWord_marker onPage, bind_eq_bind, bind_some] at returned
  rw [readNextMessage]
  split at returned
  · next ended =>
    rw [if_pos ended]
    split at returned
    · next present =>
      rw [if_pos present]
      exact (finishRead_of_fetch (onPage_nextPage reader) returned).2
    · next absent =>
      rw [if_neg absent]
      exact some.inj returned
  · next going =>
    rw [if_neg going]
    exact (finishRead_of_fetch onPage returned).2

/-- A record that is read ends on the page, or is seen to end beyond it. -/
theorem acceptable_finishRead (sizeT : SizeT) (file : PagedFile) (reader : LogFileReader) :
    Acceptable file (reader.finishRead sizeT file) ↔
      marker file.image reader.place = 0 ∨ reader.recordEnd file ≤ kPageSize ∨
        kPageSize - kAlignment ≤ reader.recordEnd file % sizeT.modulus ∧
          reader.recordEnd file % sizeT.modulus < sizeT.modulus - kAlignment := by
  rw [← seen_iff, ← advanced_recordEnd, finishRead]
  by_cases blank : marker file.image reader.place = 0
  · rw [if_pos blank]
    exact iff_of_true trivial (.inl blank)
  · rw [if_neg blank]
    dsimp only
    split
    · next seen => exact iff_of_true trivial (.inr (.inr seen))
    · next unseen =>
      rw [or_iff_right blank, or_iff_left unseen]
      simp only [Acceptable, recordEnd, place, kPageSize]
      omega

theorem fetchRecord_iff (onPage : reader.OnPage) :
    (∃ result, reader.fetchRecord sizeT file = some result ∧ Acceptable file result) ↔
      reader.Sound sizeT file := by
  have acceptable := acceptable_finishRead sizeT file reader
  constructor
  · rintro ⟨result, returned, isAcceptable⟩
    obtain ⟨room, rfl⟩ := finishRead_of_fetch onPage returned
    rcases room with blank | room
    · exact .inl blank
    · exact (acceptable.mp isAcceptable).imp_right fun seen => ⟨room, seen⟩
  · intro sound
    exact ⟨_, fetchRecord_eq onPage (sound.imp_right And.left),
      acceptable.mpr (sound.imp_right And.right)⟩

/-- A call is right if the record it comes to is sound, on a next page that there is. -/
theorem rejectsCorruption_iff (onPage : reader.OnPage) :
    reader.RejectsCorruption sizeT file ↔
      if marker file.image reader.place = 2 then
        reader.page + 1 < file.pages ∧ reader.nextPage.Sound sizeT file
      else reader.Sound sizeT file := by
  rw [RejectsCorruption, fetchNextMessage, fetchWord_marker onPage, bind_eq_bind,
    bind_some]
  by_cases ended : marker file.image reader.place = 2
  · rw [if_pos ended, if_pos ended]
    by_cases present : reader.nextPage.page < file.pages
    · rw [if_pos present, fetchRecord_iff (onPage_nextPage reader)]
      exact ⟨fun sound => ⟨present, sound⟩, fun both => both.2⟩
    · rw [if_neg present]
      refine iff_of_false ?_ (fun both => present both.1)
      rintro ⟨result, returned, acceptable⟩
      cases returned
      exact acceptable
  · rw [if_neg ended, if_neg ended, fetchRecord_iff onPage]

theorem finishRead_onPage (onPage : reader.OnPage)
    (isNext : (reader.finishRead sizeT file).reader = some next) : next.OnPage := by
  rw [finishRead] at isNext
  split at isNext
  · cases isNext
    exact onPage
  · dsimp only at isNext
    split at isNext
    · cases isNext
    · next unseen =>
      cases isNext
      exact ⟨advanced_aligned _ _ _ _, Nat.lt_of_not_le unseen⟩

/-- Calls keep the position aligned and on the page. -/
theorem Calls.onPage (onPage : reader.OnPage) (call : Calls sizeT file reader result next) :
    next.OnPage := by
  obtain ⟨returned, isNext⟩ := call
  rw [← readNextMessage_of_fetch onPage returned, readNextMessage] at isNext
  split at isNext
  · split at isNext
    · exact finishRead_onPage (onPage_nextPage reader) isNext
    · cases isNext
  · exact finishRead_onPage onPage isNext

/-- Whatever a file holds, and after whatever calls: the next call reads on its page and
returns a record on the page, NULL or the error for corrupt files exactly if the record it
comes to is sound.

Proof: calls leave the reader on an aligned place of a page, and from there the one record
decides (`rejectsCorruption_iff`). -/
theorem reader_rejects_corruption_iff (sizeT : SizeT) (file : PagedFile)
    (results : List ReadResult) (reader : LogFileReader)
    (run : Run (Calls sizeT file) atStart results reader) :
    reader.RejectsCorruption sizeT file ↔
      if marker file.image reader.place = 2 then
        reader.page + 1 < file.pages ∧ reader.nextPage.Sound sizeT file
      else reader.Sound sizeT file := by
  have onPage : reader.OnPage :=
    run.invariant ⟨rfl, by decide⟩ fun _ _ _ onPage call => call.onPage onPage
  exact rejectsCorruption_iff onPage

/-- A file of one page with a marker and sizes at its start, and a marker at the last
position. -/
def marked (nameSize messageSize : Nat) : PagedFile where
  image := setMarker (storeWord (storeWord (setMarker blank 0 1) 16 4 nameSize) 20 4 messageSize)
    16376 1
  pages := 1

/-- After a call that returned a record of a name with five bytes and a message with seven. -/
theorem reader_rejects_corruption_iff_sample :
    Run (Calls .bits32 (marked 5 7)) atStart [.message 0 ⟨0, 48⟩] ⟨0, 48⟩ ∧
      LogFileReader.RejectsCorruption .bits32 (marked 5 7) ⟨0, 48⟩ := by
  have run : Run (Calls .bits32 (marked 5 7)) atStart [.message 0 ⟨0, 48⟩] ⟨0, 48⟩ :=
    .snoc (.nil _) ⟨by decide, rfl⟩
  refine ⟨run, (reader_rejects_corruption_iff .bits32 _ _ ⟨0, 48⟩ run).mpr ?_⟩
  exact .inl (by decide)

/-- With any `size_t`, a record can lead to the last position of a page, and the sizes
that are read there are not on the page. With 32 bits, a name of almost all memory is
returned as if it ended after 24 bytes. -/
theorem reader_leaves_page :
    Calls .bits64 (marked 0 16336) atStart (.message 0 ⟨0, 16376⟩) ⟨0, 16376⟩ ∧
      fetchNextMessage .bits64 (marked 0 16336) ⟨0, 16376⟩ = none ∧
      nameSize (marked 4294967280 0).image 0 = 4294967280 ∧
      fetchNextMessage .bits32 (marked 4294967280 0) atStart = some (.message 0 ⟨0, 24⟩) := by
  refine ⟨⟨by decide, rfl⟩, by decide, by decide, by decide⟩

end LogFileReader

end Miranda.LogFile
