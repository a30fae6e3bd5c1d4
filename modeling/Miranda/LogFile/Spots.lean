import Miranda.LogFile.RoundTrip

/-!
# Where the next record goes

The page and the position of a writer move by the sizes of the records alone. This
module follows them through a put, through the type records of a struct message
and through string messages, and says on which page a published record is. The
abstract placement works on two numbers and knows nothing of the file's bytes.
-/

namespace Miranda.LogFile

open Bytes Paged QueueTypes Runs List

/-- The page and the position a writer has reached. -/
def LogFileWriter.spot (writer : LogFileWriter) : Nat × Nat := (writer.pages - 1, writer.position)

/-- The page and the position after a record of a size. -/
def placeNext (spot : Nat × Nat) (size : Nat) : Nat × Nat :=
  if kPageSize < spot.2 + footprint size + futexSize then (spot.1 + 1, footprint size)
  else (spot.1, spot.2 + footprint size)

variable {size : Nat} {spot : Nat × Nat}

theorem placeNext_turn (full : kPageSize < spot.2 + footprint size + futexSize) :
    placeNext spot size = (spot.1 + 1, footprint size) :=
  if_pos full

theorem placeNext_stay (room : ¬kPageSize < spot.2 + footprint size + futexSize) :
    placeNext spot size = (spot.1, spot.2 + footprint size) :=
  if_neg room

namespace WriterProcess

variable {process : WriterProcess} {state : LoopState} {layout : Pages}

variable {writer : LogFileWriter}

/-- A writer's spot is where its layout ends. -/
theorem spot_of_laid (laid : Laid writer layout) :
    writer.spot = (layout.closed.length, extent Record.weight layout.current) := by
  simp [LogFileWriter.spot, laid.pages, laid.position]

variable (process) in
/-- Putting a record moves the spot as `placeNext` says, and the record is on the
page the spot is on then. -/
theorem put_spot {record : Record} (laid : Laid writer layout) (fits : record.Fits) :
    (process.put writer record.size record).spot = placeNext writer.spot record.size ∧
      ∃ address, (process.put writer record.size record).published =
          writer.published ++ [(address, record)] ∧
        (process.put writer record.size record).spot.1 * kPageSize ≤ address ∧
        address < ((process.put writer record.size record).spot.1 + 1) * kPageSize := by
  have written := put_laid process laid fits
  have room := layout.currentFits
  rw [spot_of_laid written, spot_of_laid laid, written.published, laid.published, placeNext]
  unfold Layout.append
  by_cases here : extent Record.weight layout.current + record.weight ≤ pageRoom
  · have stays : ¬kPageSize < extent Record.weight layout.current + footprint record.size +
        futexSize := by
      simp only [Record.weight, pageRoom, futexSize, kPageSize] at here ⊢
      omega
    rw [dif_pos here, if_neg stays]
    refine ⟨by simp [Layout.add, Record.weight], _, layout.placed_add here, ?_, ?_⟩
    · exact Nat.le_add_right _ _
    · show layout.closed.length * kPageSize + _ < (layout.closed.length + 1) * kPageSize
      simp only [pageRoom, futexSize, kPageSize] at room ⊢
      omega
  · have leaves : kPageSize < extent Record.weight layout.current + footprint record.size +
        futexSize := by
      simp only [Record.weight, pageRoom, futexSize, kPageSize] at here ⊢
      omega
    have filled := Layout.filled_of_full fits here
    have roomy : extent Record.weight (layout.turn filled).current + record.weight ≤ pageRoom := by
      simpa [Layout.turn, Record.Fits] using fits
    have added : ((layout.turn filled).add record roomy).placed kPageSize =
        (layout.turn filled).placed kPageSize ++ [((layout.turn filled).cursor kPageSize, record)] :=
      (layout.turn filled).placed_add roomy
    rw [dif_neg here, if_pos leaves]
    rw [layout.placed_turn filled] at added
    refine ⟨by simp [Layout.add, Layout.turn, Layout.pages, Record.weight], _, added, ?_, ?_⟩
    · exact Nat.le_add_right _ _
    · simp [Layout.cursor, Layout.turn, Layout.add, kPageSize]

variable (process) in
/-- Putting types moves the spot by their sizes, keeps what was published and
publishes a definition of each type on the pages between. -/
theorem putTypes_spot (types : List MessageType)
    (small : ∀ type ∈ types, type.serializedSize ≤ typeBufferSize)
    (laid : Laid state.writer layout) :
    (process.putTypes state types).writer.spot =
        (types.map fun type => headerSize + type.serializedSize).foldl placeNext
          state.writer.spot ∧
      state.writer.spot.1 ≤ (process.putTypes state types).writer.spot.1 ∧
      ∃ entries, (process.putTypes state types).writer.published =
          state.writer.published ++ entries ∧
        entries.map Prod.snd = types.map (fun type => process.typeRecord type.encoding) ∧
        ∀ entry ∈ entries, state.writer.spot.1 * kPageSize ≤ entry.1 ∧
          entry.1 < ((process.putTypes state types).writer.spot.1 + 1) * kPageSize := by
  induction types generalizing state layout with
  | nil => exact ⟨rfl, Nat.le_refl _, [], by simp [putTypes]⟩
  | cons type rest ih =>
    have fits := fits_typeRecord process (small type List.mem_cons_self)
    have written : Laid (process.putType state type).writer (layout.append _ fits) := by
      have put := put_laid process laid fits
      rwa [size_typeRecord] at put
    obtain ⟨moved, address, published, after, below⟩ := put_spot process laid fits
    rw [size_typeRecord] at moved published after below
    have onward : state.writer.spot.1 ≤ (process.putType state type).writer.spot.1 := by
      show _ ≤ (process.put _ _ _).spot.1
      rw [moved, placeNext]
      split <;> simp
    obtain ⟨spot, later, entries, publishedLater, records, places⟩ := ih
      (fun other member => small other (List.mem_cons_of_mem _ member)) written
    refine ⟨?_, Nat.le_trans onward later, (address, process.typeRecord type.encoding) :: entries,
      ?_, ?_, ?_⟩
    · show (process.putTypes (process.putType state type) rest).writer.spot = _
      rw [spot]
      show List.foldl placeNext (process.put _ _ _).spot _ = _
      rw [moved]
      rfl
    · show (process.putTypes (process.putType state type) rest).writer.published = _
      rw [publishedLater]
      show (process.put _ _ _).published ++ entries = _
      rw [published, List.append_assoc]
      rfl
    · simp [records]
    · have base : state.writer.spot.1 * kPageSize ≤
          (process.putType state type).writer.spot.1 * kPageSize :=
        Nat.mul_le_mul_right kPageSize onward
      intro entry member
      rcases List.mem_cons.mp member with rfl | other
      · refine ⟨Nat.le_trans base after, Nat.lt_of_lt_of_le below ?_⟩
        exact Nat.mul_le_mul_right kPageSize (Nat.succ_le_succ later)
      · exact ⟨Nat.le_trans base (places entry other).1, (places entry other).2⟩

end WriterProcess

open WriterProcess

section Strings

variable {process : WriterProcess} {state : LoopState} {layout : Pages}

/-- String messages only move the writer on. -/
theorem handleMessages_strings (sized : Sized process.types) (messages : List LogMessage)
    (running : Running state layout)
    (strings : ∀ msg ∈ messages, ∃ text, msg.body = .kString text) :
    ∃ (final : LoopState) (next : Pages), process.handleMessages state messages = .ok final ∧
      Running final next ∧
      final.writer.spot =
        (messages.map LogMessage.outputLength).foldl placeNext state.writer.spot ∧
      final.writtenTypeIds = state.writtenTypeIds ∧
      final.clearTypeIdsCookie = state.clearTypeIdsCookie ∧
      final.writer.records = state.writer.records ++ messages.map LogMessage.record := by
  induction messages generalizing state layout with
  | nil => exact ⟨state, layout, rfl, running, rfl, rfl, rfl, by simp⟩
  | cons msg rest ih =>
    obtain ⟨text, isBody⟩ := strings msg mem_cons_self
    have acceptable : process.Acceptable msg := by simp [Acceptable, isBody]
    obtain ⟨middle, handled⟩ := handleMessage_total running acceptable
    obtain ⟨next, _, nextRunning, _⟩ := handleMessage_running sized running handled
    obtain ⟨same, prepared, _, isMiddle⟩ := handleMessage_ok handled
    have unchanged := prepare_other (by simp [isBody]) prepared
    subst unchanged
    obtain ⟨moved, _⟩ := put_spot process running.laid msg.fits
    rw [msg.size_record] at moved
    obtain ⟨final, last, others, lastRunning, spot, written, cookie, records⟩ :=
      ih nextRunning fun other inside => strings other (mem_cons_of_mem _ inside)
    subst isMiddle
    refine ⟨final, last, ?_, lastRunning, ?_, written, cookie, ?_⟩
    · exact foldlM_cons_ok.mpr ⟨_, handled, others⟩
    · rw [spot]
      show List.foldl placeNext _ _ = _
      rw [moved]
      rfl
    · rw [records, records_put]
      simp

/-- Thirty records of the largest string message fill a page. -/
theorem foldl_placeNext_replicate (count : Nat) :
    (List.replicate (count + 1) 532).foldl placeNext (0, 0) =
      (count / 30, (count % 30 + 1) * 536) := by
  induction count with
  | zero => rfl
  | succ count ih =>
    have weight : footprint 532 = 536 := rfl
    rw [replicate_succ', foldl_append, ih, foldl_cons,
      foldl_nil]
    by_cases last : count % 30 = 29
    · rw [placeNext_turn (by simp only [weight, kPageSize, futexSize]; omega), Prod.mk.injEq]
      omega
    · rw [placeNext_stay (by simp only [weight, kPageSize, futexSize]; omega), Prod.mk.injEq]
      omega

end Strings

end Miranda.LogFile
