import Miranda.Lib.Paged
import Miranda.LogFile.Accessor

/-!
# The file as a layout of records

The abstract log is a sequence of records laid out on pages. A writer's file
stands for such a layout when every placed record can be read at its address and
is published, every closed page ends with the end marker, and everything from the
writer's position on is still zero. Forcing a new page and writing a record keep
that relation, each with its abstract counterpart.

A reader of a file that stands for a layout gets the records of the layout, from
whatever page it starts on, and then NULL. The room of a page leaves out one
marker word, which is why the end marker always fits.
-/

namespace Miranda.LogFile

open Bytes Paged List

/-- The bytes a record takes from its page, alignment included. -/
def Record.weight (record : Record) : Nat := footprint record.size

/-- What `NeedNewPageFor` lets a page hold. -/
def pageRoom : Nat := kPageSize - futexSize

/-- The record can be written to an empty page. -/
def Record.Fits (record : Record) : Prop := record.weight ≤ pageRoom

/-- The abstract log file. -/
abbrev Pages := Layout Record.weight pageRoom

/-- A published record is at an address. -/
structure Shows (image : Image) (address : Nat) (record : Record) : Prop where
  published : marker image address = 1
  contents : loadRecord image address = some record

/-- The writer's file stands for a layout. -/
structure Laid (writer : LogFileWriter) (layout : Pages) : Prop where
  pages : writer.pages = layout.closed.length + 1
  position : writer.position = extent Record.weight layout.current
  published : writer.published = layout.placed kPageSize
  shown : ∀ address record, (address, record) ∈ layout.placed kPageSize →
    Shows writer.image address record
  turned : ∀ number page, layout.closed[number]? = some page →
    marker writer.image (number * kPageSize + extent Record.weight page) = 2
  blank : ∀ address, layout.cursor kPageSize ≤ address → writer.image address = 0

theorem size_lt_weight (record : Record) : record.size < record.weight :=
  size_lt_footprint _

theorem aligned_weight (record : Record) : kAlignment ∣ record.weight :=
  Nat.dvd_of_mod_eq_zero (footprint_aligned _)

theorem headerSize_le_size (record : Record) : headerSize ≤ record.size := by
  simp only [Record.size]
  omega

variable {record : Record} {image : Image} {address : Nat}

/-- Records that fit a page have sizes that fit their header fields. -/
theorem Record.Fits.sizes (fits : record.Fits) :
    record.name.length < 2 ^ 32 ∧ record.message.length < 2 ^ 32 := by
  have covered := size_lt_weight record
  simp only [Record.Fits, pageRoom, kPageSize, futexSize] at fits
  simp only [Record.size] at covered
  omega

/-- A published record stays where its own bytes stay. -/
theorem Shows.congr {other : Image} (shown : Shows image address record)
    (agree : Agree image other address record.size) :
    Shows other address record := by
  have large := headerSize_le_size record
  simp only [headerSize] at large
  constructor
  · have head : Agree image other address 4 := agree.part 0 4 (by omega)
    rw [← marker_congr head]
    exact shown.published
  · exact loadRecord_congr (agree.part 4 _ (by omega)) shown.contents

/-- Storing a record and setting its marker publishes it. -/
theorem shows_publish (fits : record.Fits) :
    Shows (setMarker (storeRecord image address record) address 1) address record := by
  constructor
  · exact marker_setMarker (by decide)
  · have stored : loadRecord (storeRecord image address record) address = some record :=
      loadRecord_storeRecord fits.sizes.1 fits.sizes.2
    exact loadRecord_congr (setMarker_agree (.inr (Nat.le_refl _))).symm stored

namespace Laid

variable {sizeT : SizeT} {writer : LogFileWriter} {layout : Pages} {record : Record}

/-- The writer stands at the layout's cursor. -/
theorem place (laid : Laid writer layout) : writer.place = layout.cursor kPageSize := by
  rw [LogFileWriter.place, laid.pages, laid.position]
  rfl

/-- Stores from the cursor on leave all records and page ends alone. -/
theorem kept (laid : Laid writer layout) {image : Image}
    (below : ∀ address < layout.cursor kPageSize, writer.image address = image address) :
    (∀ address record, (address, record) ∈ layout.placed kPageSize →
      Shows image address record) ∧
    ∀ number page, layout.closed[number]? = some page →
      marker image (number * kPageSize + extent Record.weight page) = 2 := by
  constructor
  · intro address record member
    have before := layout.placed_before_cursor (by decide) member
    have covered := size_lt_weight record
    apply (laid.shown address record member).congr
    intro index inside
    exact below _ (by omega)
  · intro number page isPage
    rw [← laid.turned number page isPage]
    obtain ⟨within, rfl⟩ := List.getElem?_eq_some_iff.mp isPage
    have fits := layout.closedFits _ (getElem_mem within)
    have last : (number + 1) * kPageSize ≤ layout.closed.length * kPageSize :=
      Nat.mul_le_mul_right kPageSize within
    apply (marker_congr _).symm
    intro index inside
    apply below
    simp only [pageRoom, futexSize, kPageSize, Layout.cursor] at fits last ⊢
    omega

/-- A new file is one empty page. -/
theorem create : Laid LogFileWriter.create (Layout.empty Record.weight pageRoom) where
  pages := rfl
  position := rfl
  published := rfl
  shown := by
    intro address record member
    cases member
  turned := by
    intro number page isPage
    cases isPage
  blank := fun _ _ => rfl

/-- `ForceNewPage` closes the current page. -/
theorem forceNewPage (laid : Laid writer layout) (filled : layout.current ≠ []) :
    Laid writer.forceNewPage (layout.turn filled) := by
  have below : ∀ address < layout.cursor kPageSize,
      writer.image address = writer.forceNewPage.image address := by
    intro address before
    apply ((setMarker_agree (.inl _)) 0 Nat.one_pos).symm
    rw [laid.place]
    exact before
  obtain ⟨shown, turned⟩ := laid.kept below
  have ended : marker writer.forceNewPage.image (layout.cursor kPageSize) = 2 := by
    rw [← laid.place]
    exact marker_setMarker (by decide)
  have room := layout.currentFits
  constructor
  · simp [LogFileWriter.forceNewPage, Layout.turn, Layout.pages, laid.pages]
  · rfl
  · rw [layout.placed_turn filled]
    exact laid.published
  · rw [layout.placed_turn filled]
    exact shown
  · intro number page isPage
    simp only [Layout.turn, Layout.pages, getElem?_append] at isPage
    split at isPage
    · exact turned number page isPage
    · obtain ⟨within, rfl⟩ := List.getElem?_eq_some_iff.mp isPage
      have number : number = layout.closed.length := by
        simp only [length_singleton] at within
        omega
      subst number
      simpa [Layout.cursor] using ended
  · intro address after
    have far : layout.cursor kPageSize + 4 ≤ address := by
      simp only [Layout.turn, Layout.cursor, Layout.pages, length_append,
        length_singleton, extent_nil, pageRoom, futexSize, kPageSize] at after room ⊢
      omega
    have same : writer.forceNewPage.image address = writer.image address := by
      apply setMarker_agree (.inr _) 0 Nat.one_pos
      rw [laid.place]
      exact far
    rw [same]
    exact laid.blank address (by omega)

/-- Writing a record at the writer's position puts it on the current page. -/
theorem publish (sizeT : SizeT) (laid : Laid writer layout)
    (room : extent Record.weight layout.current + record.weight ≤ pageRoom) :
    Laid (LogFileWriter.publish
      { writer with position := incrementPosition sizeT writer.position record.size }
      writer.place record) (layout.add record room) := by
  have fits : record.Fits := Nat.le_of_add_left_le room
  have covered := size_lt_weight record
  have large := headerSize_le_size record
  simp only [headerSize] at large
  set image := setMarker _ writer.place 1 with isImage
  have outside : ∀ address, address < writer.place ∨ writer.place + record.size ≤ address →
      image address = writer.image address := by
    intro address away
    have marked : image address = storeRecord writer.image writer.place record address :=
      setMarker_agree (by omega) 0 Nat.one_pos
    rw [marked]
    exact storeRecord_agree (by omega) 0 Nat.one_pos
  have below : ∀ address < layout.cursor kPageSize, writer.image address = image address := by
    intro address before
    rw [← laid.place] at before
    exact (outside address (.inl before)).symm
  obtain ⟨shown, turned⟩ := laid.kept below
  have aligned : writer.position % kAlignment = 0 := by
    rw [laid.position]
    exact Nat.mod_eq_zero_of_dvd (dvd_extent aligned_weight)
  constructor
  · exact laid.pages
  · show incrementPosition sizeT _ _ = _
    have small : writer.position + record.size < 2 ^ 31 := by
      rw [laid.position]
      simp only [pageRoom, kPageSize, futexSize] at room
      omega
    rw [incrementPosition_eq sizeT _ aligned small, laid.position]
    simp [Layout.add, Record.weight]
  · rw [layout.placed_add room, ← laid.published, ← laid.place]
    rfl
  · intro address other member
    rw [layout.placed_add room] at member
    rcases mem_append.mp member with old | new
    · exact shown address other old
    · cases mem_singleton.mp new
      rw [← laid.place]
      exact shows_publish fits
  · exact turned
  · intro address after
    have far : writer.place + record.size ≤ address := by
      rw [laid.place]
      simp only [Layout.cursor, Layout.add, extent_append, extent_cons, extent_nil] at after ⊢
      omega
    show image address = 0
    rw [outside address (.inr far)]
    apply laid.blank
    rw [← laid.place]
    omega

/-- `NeedNewPageFor` asks whether the record still fits the current page. -/
theorem needNewPageFor_iff (laid : Laid writer layout) :
    writer.needNewPageFor record.size = true ↔
      ¬extent Record.weight layout.current + record.weight ≤ pageRoom := by
  simp only [LogFileWriter.needNewPageFor, decide_eq_true_eq, laid.position, Record.weight,
    footprint, pageRoom, kPageSize, kAlignment, futexSize]
  omega

/-- `GetWritePosition` for a record and publishing it there append the record to
the layout. -/
theorem write (laid : Laid writer layout) (fits : record.Fits) :
    Laid ((writer.getWritePosition sizeT record.size).2.publish
      (writer.getWritePosition sizeT record.size).1 record) (layout.append record fits) := by
  unfold LogFileWriter.getWritePosition Layout.append
  by_cases room : extent Record.weight layout.current + record.weight ≤ pageRoom
  · have same : writer.needNewPageFor record.size = false := by
      rw [← Bool.not_eq_true, laid.needNewPageFor_iff]
      exact not_not_intro room
    rw [dif_pos room]
    simp only [same, Bool.false_eq_true, if_false]
    exact laid.publish sizeT room
  · have new : writer.needNewPageFor _ = true := laid.needNewPageFor_iff.mpr room
    rw [dif_neg room]
    simp only [new, if_true]
    exact (laid.forceNewPage _).publish sizeT _

end Laid

/-- What lies before a reader on its page: published records up to a last marker. -/
structure PageAhead (file : PagedFile) (reader : LogFileReader) (records : List Record)
    (ending : Nat) : Prop where
  aligned : kAlignment ∣ reader.position
  room : reader.position + extent Record.weight records ≤ pageRoom
  shown : ∀ address record, (address, record) ∈ placedFrom Record.weight reader.place records →
    Shows file.image address record
  ended : marker file.image (reader.place + extent Record.weight records) = ending

/-- What lies before a reader in the file: the rest of its page and the pages
after it, none but the last of them empty. -/
def Ahead (file : PagedFile) (reader : LogFileReader) (records : List Record) :
    List (List Record) → Prop
  | [] => PageAhead file reader records 0
  | page :: later =>
    PageAhead file reader records 2 ∧ reader.page + 1 < file.pages ∧
      (later ≠ [] → page ≠ []) ∧ Ahead file reader.nextPage page later

section Reading

variable {sizeT : SizeT} {file : PagedFile} {reader : LogFileReader} {record : Record}
  {records : List Record} {ending : Nat}

theorem PageAhead.ended_nil (ahead : PageAhead file reader [] ending) :
    marker file.image reader.place = ending := by
  simpa using ahead.ended

/-- The first record ahead is read, and the others stay ahead. -/
theorem PageAhead.read (sizeT : SizeT) (ahead : PageAhead file reader (record :: records) ending) :
    reader.readNextMessage sizeT file =
        .message reader.place { reader with position := reader.position + record.weight } ∧
      loadRecord file.image reader.place = some record ∧
      PageAhead file { reader with position := reader.position + record.weight } records ending := by
  have shown := ahead.shown _ record mem_cons_self
  have room := ahead.room
  rw [extent_cons] at room
  have inside : reader.position + footprint record.size < kPageSize := by
    simp only [Record.weight, pageRoom, kPageSize, futexSize] at room ⊢
    omega
  have moved : LogFileReader.place { reader with position := reader.position + record.weight } =
      reader.place + record.weight := by
    simp only [LogFileReader.place]
    omega
  refine ⟨LogFileReader.readNextMessage_record shown.published shown.contents
    (Nat.mod_eq_zero_of_dvd ahead.aligned) inside, shown.contents, ?_⟩
  constructor
  · exact Nat.dvd_add ahead.aligned (aligned_weight record)
  · show reader.position + record.weight + _ ≤ _
    omega
  · intro address other member
    rw [moved] at member
    exact ahead.shown address other (mem_cons_of_mem _ member)
  · rw [moved, Nat.add_assoc]
    exact ahead.ended

variable {later : List (List Record)}

theorem Ahead.read (sizeT : SizeT) (ahead : Ahead file reader (record :: records) later) :
    reader.readNextMessage sizeT file =
        .message reader.place { reader with position := reader.position + record.weight } ∧
      loadRecord file.image reader.place = some record ∧
      Ahead file { reader with position := reader.position + record.weight } records later := by
  cases later with
  | nil => exact PageAhead.read sizeT ahead
  | cons page later =>
    obtain ⟨here, present, filled, beyond⟩ := ahead
    obtain ⟨read, contents, rest⟩ := here.read sizeT
    exact ⟨read, contents, rest, present, filled, beyond⟩

/-- The first marker of a page is not an end marker: it is a record's marker, or
zero on an empty last page. -/
theorem Ahead.begun (ahead : Ahead file reader records later) (filled : later ≠ [] → records ≠ []) :
    marker file.image reader.place ≠ 2 := by
  cases records with
  | nil =>
    cases later with
    | nil =>
      rw [PageAhead.ended_nil ahead]
      decide
    | cons page later => exact absurd rfl (filled (by simp))
  | cons record records =>
    have shown : Shows file.image reader.place record := by
      cases later with
      | nil => exact PageAhead.shown ahead _ _ mem_cons_self
      | cons page later => exact ahead.1.shown _ _ mem_cons_self
    rw [shown.published]
    decide

/-- Everything ahead of a reader is read, in order, and then NULL.

Proof: by induction on the pages to come and, on each page, on its records. At a
page end the call behaves as at the start of the next page. -/
theorem Ahead.readsAll (sizeT : SizeT) (ahead : Ahead file reader records later) :
    ReadsAll sizeT file reader (records ++ later.flatten) := by
  induction later generalizing reader records with
  | nil =>
    induction records generalizing reader with
    | nil =>
      apply ReadsAll.done
      exact LogFileReader.readNextMessage_null (PageAhead.ended_nil ahead)
    | cons record records ih =>
      obtain ⟨read, contents, rest⟩ := ahead.read sizeT
      exact .next read contents (ih rest)
  | cons page later laterPages =>
    induction records generalizing reader with
    | nil =>
      obtain ⟨here, present, filled, beyond⟩ := ahead
      have same := LogFileReader.readNextMessage_turn sizeT here.ended_nil present
        (beyond.begun filled)
      exact (laterPages beyond).congr same.symm
    | cons record records ih =>
      obtain ⟨read, contents, rest⟩ := ahead.read sizeT
      exact .next read contents (ih rest)

end Reading

namespace Laid

variable {sizeT : SizeT} {writer : LogFileWriter} {layout : Pages}

variable {page : List Record} {number : Nat}

/-- A page of the layout is ahead of a reader at its start. -/
theorem pageAhead (laid : Laid writer layout) {ending : Nat}
    (isPage : layout.pages[number]? = some page)
    (ended : marker writer.image (number * kPageSize + extent Record.weight page) = ending) :
    PageAhead writer.toPagedFile ⟨number, 0⟩ page ending := by
  obtain ⟨within, rfl⟩ := List.getElem?_eq_some_iff.mp isPage
  constructor
  · exact Nat.dvd_zero _
  · have fits := layout.pages_fit _ (getElem_mem within)
    simpa using fits
  · intro address record member
    apply laid.shown
    apply placedFrom_subset isPage
    simpa [LogFileReader.place] using member
  · simpa [LogFileReader.place] using ended

/-- From the start of any page on, a reader has the layout's pages ahead. -/
theorem ahead (laid : Laid writer layout) {before later : List (List Record)}
    (split : layout.pages = before ++ page :: later) :
    Ahead writer.toPagedFile ⟨before.length, 0⟩ page later := by
  have isPage : layout.pages[before.length]? = some page := by simp [split]
  induction later generalizing before page with
  | nil =>
    apply laid.pageAhead isPage
    obtain ⟨closed, current⟩ := append_inj' split rfl
    cases current
    apply loadWord_blank
    intro index inside
    apply laid.blank
    rw [← closed, Layout.cursor]
    omega
  | cons next later ih =>
    have further : layout.pages = (before ++ [page]) ++ next :: later := by simp [split]
    have nextIs : layout.pages[(before ++ [page]).length]? = some next := by
      rw [further]
      simp
    obtain ⟨middle, last, tail⟩ : ∃ middle last, next :: later = middle ++ [last] :=
      ⟨_, _, (dropLast_append_getLast (by simp)).symm⟩
    have closed : layout.closed = before ++ page :: middle := by
      have whole : layout.closed ++ [layout.current] = (before ++ page :: middle) ++ [last] := by
        rw [append_assoc, cons_append, ← tail]
        exact split
      exact (append_inj' whole rfl).1
    have ended : marker writer.image
        (before.length * kPageSize + extent Record.weight page) = 2 := by
      apply laid.turned
      simp [closed]
    refine ⟨laid.pageAhead isPage ended, ?_, ?_, ?_⟩
    · show before.length + 1 < writer.pages
      rw [laid.pages, closed, length_append, length_cons]
      omega
    · intro more
      apply layout.closedFilled
      rw [closed]
      cases middle with
      | nil =>
        cases tail
        exact absurd rfl more
      | cons first middle =>
        cases tail
        simp
    · have rest := ih further nextIs
      rwa [length_append] at rest

/-- Reading from the start of a page returns the layout's records from there on.
In terms of the history these are the records published at or after that page. -/
theorem readsAll (sizeT : SizeT) (laid : Laid writer layout) (present : number < writer.pages) :
    ReadsAll sizeT writer.toPagedFile ⟨number, 0⟩
      ((writer.published.filter fun entry => number * kPageSize ≤ entry.1).map Prod.snd) := by
  have within : number < layout.pages.length := by
    simpa [Layout.pages, ← laid.pages] using present
  have split : layout.pages =
      layout.pages.take number ++ layout.pages[number] :: layout.pages.drop (number + 1) := by
    rw [← drop_eq_getElem_cons, take_append_drop]
  have reads := (laid.ahead split).readsAll sizeT
  rw [length_take_of_le (Nat.le_of_lt within)] at reads
  have positive : ∀ record : Record, 0 < record.weight :=
    fun record => Nat.lt_of_le_of_lt (Nat.zero_le _) (size_lt_weight record)
  have fits : ∀ page ∈ layout.pages, extent Record.weight page < kPageSize := by
    intro page member
    exact Nat.lt_of_le_of_lt (layout.pages_fit page member) (by decide)
  have onward := placedPages_drop fits 0 number positive
  rw [Nat.zero_add] at onward
  have records : (writer.published.filter fun entry => number * kPageSize ≤ entry.1).map Prod.snd =
      (layout.pages.drop number).flatten := by
    rw [laid.published, Layout.placed, onward, map_snd_placedPages]
  rw [records, drop_eq_getElem_cons within]
  exact reads

/-- Records start aligned, stay on one page and do not overlap. -/
theorem separated (laid : Laid writer layout) :
    (∀ entry ∈ writer.published, kAlignment ∣ entry.1 ∧
      ∃ number < writer.pages, number * kPageSize ≤ entry.1 ∧
        entry.1 + entry.2.size ≤ (number + 1) * kPageSize) ∧
    writer.published.Pairwise fun first second => first.1 + first.2.size ≤ second.1 := by
  rw [laid.published]
  constructor
  · rintro ⟨address, record⟩ member
    constructor
    · obtain ⟨number, page, _, inside⟩ := mem_placedPages member
      apply placedFrom_aligned _ aligned_weight inside
      exact Nat.dvd_mul_left_of_dvd (by decide) _
    · obtain ⟨number, within, after, below⟩ := placedPages_inside layout.pages_fit member
      have covered := size_lt_weight record
      rw [Nat.zero_add] at after below
      refine ⟨number, ?_, after, ?_⟩
      · simpa [Layout.pages, laid.pages] using within
      · simp only [pageRoom, futexSize] at below
        rw [Nat.add_mul]
        show address + record.size ≤ _
        omega
  · have fits : ∀ page ∈ layout.pages, extent _ page ≤ kPageSize :=
      fun page member => Nat.le_trans (layout.pages_fit page member) (by decide)
    apply (placedPages_pairwise fits 0).imp
    intro first second follows
    have covered := size_lt_weight first.2
    omega

end Laid

end Miranda.LogFile
