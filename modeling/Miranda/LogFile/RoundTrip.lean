import Miranda.LogFile.TypeRecords

/-!
# Log files are read as they were written

In every run of the writer's loop the file stands for a layout of records, so a
reader gets back exactly what was published. The records are those of the
messages, in order, with the records of types in between, and the displayer's
decoding recovers what each message held.

The loop forces a new page only when the current page holds something: an empty
current page means that nothing was written yet, and then the log is in its first
seekable block.
-/

namespace Miranda.LogFile

open Bytes Paged QueueTypes Runs List

/-- A state of the loop and the layout its file stands for. -/
structure Running (state : LoopState) (layout : Pages) : Prop where
  laid : Laid state.writer layout
  untouched : layout.current = [] → layout.closed = [] ∧ state.clearTypeIdsCookie = 0
  cookie : state.clearTypeIdsCookie ≤ layout.closed.length / kSeekPages

/-- The state in which the types of a struct message are checked: the writer has
gone to a new page and forgotten all types if the message starts a new block. -/
def LoopState.entered (state : LoopState) (msg : LogMessage) : LoopState :=
  if state.clearTypeIdsCookie = state.writer.nextSeekablePage msg.outputLength then state
  else
    { writer := state.writer.forceNewPage
      writtenTypeIds := []
      clearTypeIdsCookie := state.writer.nextSeekablePage msg.outputLength }

/-- The records of a log in the order they were published. -/
def LogFileWriter.records (writer : LogFileWriter) : List Record := writer.published.map Prod.snd

/-- Records of messages and types fit a page with room to spare. -/
theorem fits_of_size {record : Record} (small : record.size ≤ 2048) : record.Fits := by
  simp only [Record.Fits, Record.weight, footprint, pageRoom, kPageSize, kAlignment, futexSize]
  omega

theorem LogMessage.fits (msg : LogMessage) : msg.record.Fits := by
  apply fits_of_size
  rw [msg.size_record]
  exact Nat.le_trans msg.outputLength_le (by decide)

namespace WriterProcess

variable {process : WriterProcess} {state final : LoopState} {layout : Pages} {msg : LogMessage}

theorem size_typeRecord (type : MessageType) :
    (process.typeRecord type.encoding).size = headerSize + type.serializedSize := by
  simp [Record.size, typeRecord, type.length_encoding]

variable (process) in
theorem fits_typeRecord {type : MessageType} (small : type.serializedSize ≤ typeBufferSize) :
    (process.typeRecord type.encoding).Fits := by
  apply fits_of_size
  rw [size_typeRecord]
  simp only [typeBufferSize] at small
  simp only [headerSize]
  omega

/-- Putting a record publishes it after all others. -/
theorem records_put (writer : LogFileWriter) (size : Nat) (record : Record) :
    (process.put writer size record).records = writer.records ++ [record] := by
  simp only [put, LogFileWriter.publish, LogFileWriter.records, LogFileWriter.getWritePosition,
    LogFileWriter.forceNewPage]
  split <;> simp

variable {record : Record} {typeId : TypeId}

variable (process) in
/-- Putting a record appends it to the layout. -/
theorem put_laid {writer : LogFileWriter} (laid : Laid writer layout) (fits : record.Fits) :
    Laid (process.put writer record.size record) (layout.append record fits) :=
  laid.write fits

theorem append_current_ne_nil (fits : record.Fits) :
    (layout.append record fits).current ≠ [] := by
  unfold Layout.append
  split <;> simp [Layout.add]

theorem append_closed_length (fits : record.Fits) :
    layout.closed.length ≤ (layout.append record fits).closed.length := by
  unfold Layout.append
  split <;> simp [Layout.add, Layout.turn, Layout.pages]

variable (process) in
/-- Putting types that fit keeps the file readable. -/
theorem putTypes_laid (types : List MessageType)
    (small : ∀ type ∈ types, type.serializedSize ≤ typeBufferSize)
    (laid : Laid state.writer layout) :
    ∃ next : Pages, Laid (process.putTypes state types).writer next ∧
      layout.closed.length ≤ next.closed.length ∧
      (process.putTypes state types).writer.records =
        state.writer.records ++ types.map fun type => process.typeRecord type.encoding := by
  induction types generalizing state layout with
  | nil => exact ⟨layout, laid, Nat.le_refl _, by simp [putTypes]⟩
  | cons type rest ih =>
    have fits := fits_typeRecord process (small type List.mem_cons_self)
    have put : Laid (process.putType state type).writer (layout.append _ fits) := by
      have written := put_laid process laid fits
      rwa [size_typeRecord] at written
    obtain ⟨next, nextLaid, longer, records⟩ := ih
      (fun other member => small other (List.mem_cons_of_mem _ member)) put
    refine ⟨next, nextLaid, Nat.le_trans (append_closed_length fits) longer, ?_⟩
    show (process.putTypes (process.putType state type) rest).writer.records = _
    rw [records]
    simp [putType, records_put]

/-- Where the next message is in another block than the cookie, something was
written to the page. -/
theorem filled_of_new_block (running : Running state layout)
    (changes : state.clearTypeIdsCookie ≠ state.writer.nextSeekablePage msg.outputLength) :
    layout.current ≠ [] := by
  intro nothing
  obtain ⟨first, zero⟩ := running.untouched nothing
  have position : state.writer.position = 0 := by
    rw [running.laid.position, nothing]
    rfl
  have pages : state.writer.pages = 1 := by
    rw [running.laid.pages, first]
    rfl
  have small := msg.outputLength_le
  have stays : state.writer.needNewPageFor msg.outputLength = false := by
    simp only [LogFileWriter.needNewPageFor, position, kPageSize, kAlignment, futexSize,
      decide_eq_false_iff_not]
    omega
  apply changes
  simp [LogFileWriter.nextSeekablePage, stays, pages, zero]

/-- The file is still readable when the types of a struct message are checked, and
the cookie is at most the block of the current page. -/
theorem entered_laid (running : Running state layout) (msg : LogMessage) :
    ∃ next : Pages, Laid (state.entered msg).writer next ∧
      (state.entered msg).clearTypeIdsCookie ≤ next.closed.length / kSeekPages ∧
      (state.entered msg).writer.published = state.writer.published := by
  unfold LoopState.entered
  by_cases same : state.clearTypeIdsCookie = state.writer.nextSeekablePage msg.outputLength
  · rw [if_pos same]
    exact ⟨layout, running.laid, running.cookie, rfl⟩
  · rw [if_neg same]
    refine ⟨_, running.laid.forceNewPage (filled_of_new_block running same), ?_, rfl⟩
    have pages : state.writer.pages - 1 = layout.closed.length := by
      rw [running.laid.pages]
      rfl
    apply Nat.div_le_div_right
    simp only [Layout.turn, Layout.pages, length_append, length_singleton]
    split <;> omega

/-- For a struct message the loop checks its type in that state. -/
theorem prepare_struct {string serialized : List UInt8}
    (isBody : msg.body = .kStruct typeId string serialized)
    (prepared : process.prepare state msg = .ok final) :
    process.checkTypeWritten process.typeDepth typeId (state.entered msg) = .ok final := by
  unfold prepare at prepared
  simp only [isBody, LogFileWriter.shouldClearSeekableData] at prepared
  by_cases behind : state.clearTypeIdsCookie ≤ state.writer.nextSeekablePage msg.outputLength
  · rw [if_pos behind] at prepared
    unfold LoopState.entered
    by_cases same : state.clearTypeIdsCookie = state.writer.nextSeekablePage msg.outputLength
    · have unchanged : ({ state with
          clearTypeIdsCookie := state.writer.nextSeekablePage msg.outputLength } : LoopState) =
          state := by rw [← same]
      rw [decide_eq_false (not_not_intro same)] at prepared
      rw [if_pos same]
      rwa [← unchanged]
    · rw [decide_eq_true same] at prepared
      rwa [if_neg same]
  · rw [if_neg behind] at prepared
    cases prepared

/-- Other messages change nothing before they are written. -/
theorem prepare_other
    (other : ∀ typeId string serialized, msg.body ≠ .kStruct typeId string serialized)
    (prepared : process.prepare state msg = .ok final) : state = final := by
  unfold prepare at prepared
  split at prepared
  · exact Except.ok.inj prepared
  · next isBody => exact absurd isBody (other _ _ _)
  · split at prepared
    · exact Except.ok.inj prepared
    · cases prepared

/-- Checking a type adds records of known types to a readable file. -/
theorem checkTypeWritten_laid (sized : Sized process.types) {depth : Nat}
    (laid : Laid state.writer layout)
    (checked : process.checkTypeWritten depth typeId state = .ok final) :
    ∃ (next : Pages) (types : List MessageType), Laid final.writer next ∧
      layout.closed.length ≤ next.closed.length ∧
      final.clearTypeIdsCookie = state.clearTypeIdsCookie ∧
      (∀ type ∈ types, type ∈ process.types.types) ∧
      final.writer.records =
        state.writer.records ++ types.map fun type => process.typeRecord type.encoding := by
  have reached := checkTypeWritten_eq sized depth typeId state final checked
  subst reached
  obtain ⟨next, nextLaid, longer, records⟩ := putTypes_laid process
    _
    (fun _ pending => (pendingTypes_small pending).2) laid
  exact ⟨next, _, nextLaid, longer, cookie_putTypes _,
    fun _ pending => (pendingTypes_small pending).1, records⟩

/-- What happens before a message is written keeps the file readable. -/
theorem prepare_laid (sized : Sized process.types) (running : Running state layout)
    (prepared : process.prepare state msg = .ok final) :
    ∃ (next : Pages) (types : List MessageType), Laid final.writer next ∧
      final.clearTypeIdsCookie ≤ next.closed.length / kSeekPages ∧
      (∀ type ∈ types, type ∈ process.types.types) ∧
      final.writer.records =
        state.writer.records ++ types.map fun type => process.typeRecord type.encoding := by
  cases isBody : msg.body with
  | kStruct typeId string serialized =>
    obtain ⟨entry, laid, bound, published⟩ := entered_laid running msg
    obtain ⟨next, types, nextLaid, longer, same, known, records⟩ :=
      checkTypeWritten_laid sized laid (prepare_struct isBody prepared)
    refine ⟨next, types, nextLaid, ?_, known, ?_⟩
    · rw [same]
      exact Nat.le_trans bound (Nat.div_le_div_right longer)
    · rw [records, LogFileWriter.records, published, LogFileWriter.records]
  | kString message | kMatrix type rows cols string data =>
    have same := prepare_other (by simp [isBody]) prepared
    exact ⟨layout, [], same ▸ running.laid, same ▸ running.cookie, by simp, by simp [same]⟩

/-- A pass of the loop that returns has prepared, made its check and put the
record. -/
theorem handleMessage_ok (handled : process.handleMessage state msg = .ok final) :
    ∃ middle, process.prepare state msg = .ok middle ∧ msg.matrixSizeAgrees = true ∧
      final = { middle with writer := process.put middle.writer msg.outputLength msg.record } := by
  unfold handleMessage at handled
  split at handled
  · cases handled
  next middle prepared =>
  split at handled
  · cases handled
  next agrees =>
  split at handled
  · cases handled
  exact ⟨middle, prepared, by simpa using agrees, (Except.ok.inj handled).symm⟩

/-- One pass of the loop publishes the record of its message after the records of
the types it needs. -/
theorem handleMessage_running (sized : Sized process.types) (running : Running state layout)
    (handled : process.handleMessage state msg = .ok final) :
    ∃ (next : Pages) (types : List MessageType), Running final next ∧
      msg.matrixSizeAgrees = true ∧ (∀ type ∈ types, type ∈ process.types.types) ∧
      final.writer.records = state.writer.records ++
        (types.map fun type => process.typeRecord type.encoding) ++ [msg.record] := by
  obtain ⟨middle, prepared, agrees, rfl⟩ := handleMessage_ok handled
  obtain ⟨next, types, laid, cookie, known, records⟩ := prepare_laid sized running prepared
  refine ⟨next.append _ msg.fits, types, ?_, agrees, known, ?_⟩
  · constructor
    · have written := put_laid process laid msg.fits
      rwa [msg.size_record] at written
    · intro nothing
      exact absurd nothing (append_current_ne_nil _)
    · exact Nat.le_trans cookie (Nat.div_le_div_right (append_closed_length _))
  · rw [records_put, records]

end WriterProcess

/-- A record that is not the record of a type. -/
def Record.ofMessage (record : Record) : Bool := record.kind != .kStructType

theorem LogMessage.ofMessage_record (msg : LogMessage) : msg.record.ofMessage = true := by
  simp only [Record.ofMessage, LogMessage.record, LogMessage.payload]
  cases msg.body <;> rfl

namespace WriterProcess

variable {process : WriterProcess} {state final : LoopState} {layout : Pages}

/-- The types that are defined are types of the cache. -/
def OfKnown (process : WriterProcess) (records : List Record) : Prop :=
  ∀ record ∈ records, record.kind = .kStructType →
    ∃ type ∈ process.types.types, record = process.typeRecord type.encoding

/-- Any number of passes publishes the records of the messages in order, with the
records of known types in between. -/
theorem handleMessages_running (sized : Sized process.types) (messages : List LogMessage)
    (running : Running state layout) (types : process.OfKnown state.writer.records)
    (handled : process.handleMessages state messages = .ok final) :
    (∃ next : Pages, Running final next) ∧
      final.writer.records.filter Record.ofMessage =
        state.writer.records.filter Record.ofMessage ++ messages.map LogMessage.record ∧
      process.OfKnown final.writer.records ∧ ∀ msg ∈ messages, msg.matrixSizeAgrees = true := by
  induction messages generalizing state layout with
  | nil =>
    cases Except.ok.inj handled
    exact ⟨⟨layout, running⟩, by simp, types, by simp⟩
  | cons msg rest ih =>
    obtain ⟨middle, first, others⟩ := foldlM_cons_ok.mp handled
    obtain ⟨next, written, nextRunning, agrees, known, records⟩ :=
      handleMessage_running sized running first
    have typesNow : process.OfKnown middle.writer.records := by
      intro record member isType
      rw [records] at member
      rcases mem_append.mp member with before | last
      · rcases mem_append.mp before with old | new
        · exact types record old isType
        · obtain ⟨type, inside, rfl⟩ := mem_map.mp new
          exact ⟨type, known type inside, rfl⟩
      · have message := msg.ofMessage_record
        rw [← mem_singleton.mp last, Record.ofMessage, isType] at message
        cases message
    obtain ⟨reached, messages, typesThen, agreeing⟩ := ih nextRunning typesNow others
    have noMessages : (written.map fun type => process.typeRecord type.encoding).filter
        Record.ofMessage = [] := by
      apply filter_eq_nil_iff.mpr
      intro record member
      obtain ⟨type, _, rfl⟩ := mem_map.mp member
      simp [Record.ofMessage, typeRecord]
    refine ⟨reached, ?_, typesThen, forall_mem_cons.mpr ⟨agrees, agreeing⟩⟩
    rw [messages, records, filter_append, filter_append, noMessages]
    simp [msg.ofMessage_record]

/-- The checks the loop makes on a message, and that its type is known. -/
def Acceptable (process : WriterProcess) (msg : LogMessage) : Prop :=
  match msg.body with
  | .kString _ => True
  | .kStruct typeId _ _ =>
    isPrimitive typeId = true ∨ typeId ∈ process.types.types.map MessageType.id
  | .kMatrix type _ _ _ _ => isPrimitive type = true ∧ msg.matrixSizeAgrees = true

/-- The check of the cookie does not fail in the loop. -/
theorem shouldClearSeekableData_answers (running : Running state layout) (size : Nat) :
    ∃ answer, state.writer.shouldClearSeekableData state.clearTypeIdsCookie size = some answer := by
  have behind : state.clearTypeIdsCookie ≤ state.writer.nextSeekablePage size := by
    apply Nat.le_trans running.cookie
    apply Nat.div_le_div_right
    rw [running.laid.pages]
    split <;> omega
  exact ⟨_, if_pos behind⟩

/-- The loop handles every acceptable message. -/
theorem handleMessage_total (running : Running state layout) {msg : LogMessage}
    (acceptable : process.Acceptable msg) :
    ∃ final, process.handleMessage state msg = .ok final := by
  have types : ∀ typeId string serialized, msg.body = .kStruct typeId string serialized →
      ∀ state, ∃ final, process.checkTypeWritten process.typeDepth typeId state = .ok final := by
    intro typeId string serialized isBody state
    simp only [Acceptable, isBody] at acceptable
    exact checkTypeWritten_total (append_nil _).symm typeId acceptable _
      (Nat.lt_succ_self _) state
  have prepared : ∃ middle, process.prepare state msg = .ok middle := by
    unfold prepare
    cases isBody : msg.body with
    | kString message => exact ⟨state, rfl⟩
    | kStruct typeId string serialized =>
      obtain ⟨⟨clear, cookie⟩, answer⟩ := shouldClearSeekableData_answers running _
      rw [answer]
      cases clear <;> exact types typeId string serialized isBody _
    | kMatrix type rows cols string data =>
      simp only [Acceptable, isBody] at acceptable
      exact ⟨state, if_pos acceptable.1⟩
  have agrees : msg.matrixSizeAgrees = true := by
    cases isBody : msg.body with
    | kString message | kStruct typeId string serialized =>
      simp [LogMessage.matrixSizeAgrees, isBody]
    | kMatrix type rows cols string data =>
      simp only [Acceptable, isBody] at acceptable
      exact acceptable.2
  obtain ⟨middle, ready⟩ := prepared
  unfold handleMessage
  rw [ready]
  dsimp only
  rw [if_neg (by simp [agrees]), if_neg (by simp [msg.lengths_agree])]
  exact ⟨_, rfl⟩

/-- The loop handles every sequence of acceptable messages. -/
theorem handleMessages_total (sized : Sized process.types) (messages : List LogMessage)
    (running : Running state layout) (acceptable : ∀ msg ∈ messages, process.Acceptable msg) :
    ∃ final, process.handleMessages state messages = .ok final := by
  induction messages generalizing state layout with
  | nil => exact ⟨state, rfl⟩
  | cons msg rest ih =>
    obtain ⟨middle, first⟩ := handleMessage_total running (acceptable msg mem_cons_self)
    obtain ⟨next, _, nextRunning, _⟩ := handleMessage_running sized running first
    obtain ⟨final, others⟩ := ih nextRunning fun other inside =>
      acceptable other (mem_cons_of_mem _ inside)
    exact ⟨final, foldlM_cons_ok.mpr ⟨middle, first, others⟩⟩

end WriterProcess

theorem start_running : Running LoopState.start (Layout.empty Record.weight pageRoom) where
  laid := .create
  untouched := fun _ => ⟨rfl, rfl⟩
  cookie := Nat.zero_le _

/-- The file of a loop that has handled its messages is read back record by record. -/
theorem WriterProcess.handled_reads {process : WriterProcess} (sized : Sized process.types)
    {messages : List LogMessage} {final : LoopState}
    (handled : process.handleMessages LoopState.start messages = .ok final) (sizeT : SizeT) :
    (∃ layout : Pages, Running final layout) ∧
    ReadsAll sizeT final.writer.toPagedFile LogFileReader.atStart final.writer.records ∧
    final.writer.records.filter Record.ofMessage = messages.map LogMessage.record ∧
    process.OfKnown final.writer.records ∧ ∀ msg ∈ messages, msg.matrixSizeAgrees = true := by
  obtain ⟨⟨layout, running⟩, ofMessages, ofTypes, agreeing⟩ :=
    handleMessages_running sized messages start_running (by rintro _ ⟨⟩) handled
  have present : 0 < final.writer.pages := by
    rw [running.laid.pages]
    exact Nat.succ_pos _
  have reads := running.laid.readsAll sizeT present
  have all : (final.writer.published.filter fun entry => 0 * kPageSize ≤ entry.1) =
      final.writer.published := by
    apply filter_eq_self.mpr
    simp
  rw [all] at reads
  refine ⟨⟨layout, running⟩, reads, ?_, ofTypes, agreeing⟩
  simpa [LoopState.start, LogFileWriter.create, LogFileWriter.records] using ofMessages

/-- Whatever messages the loop handles, the file is laid out without overlap and is
read back record by record; the records are those of the messages with records of
types in between, and the displayer recovers every message.

Proof: the loop keeps a layout for its file, so alignment, separation and reading
are facts about layouts; the records are counted along the run. -/
theorem log_round_trip (process : WriterProcess) (sized : Sized process.types)
    (messages : List LogMessage) (final : LoopState)
    (handled : process.handleMessages LoopState.start messages = .ok final) (sizeT : SizeT) :
    (∀ entry ∈ final.writer.published, kAlignment ∣ entry.1 ∧
      ∃ number < final.writer.pages, number * kPageSize ≤ entry.1 ∧
        entry.1 + entry.2.size ≤ (number + 1) * kPageSize) ∧
    (final.writer.published.Pairwise fun first second => first.1 + first.2.size ≤ second.1) ∧
    ReadsAll sizeT final.writer.toPagedFile LogFileReader.atStart final.writer.records ∧
    final.writer.records.filter Record.ofMessage = messages.map LogMessage.record ∧
    (∀ record ∈ final.writer.records, record.kind = .kStructType →
      ∃ type ∈ process.types.types, record = process.typeRecord type.encoding) ∧
    ∀ msg ∈ messages, display msg.record = some msg.displayed := by
  obtain ⟨⟨layout, running⟩, reads, ofMessages, ofTypes, agreeing⟩ :=
    WriterProcess.handled_reads sized handled sizeT
  obtain ⟨inside, apart⟩ := running.laid.separated
  exact ⟨inside, apart, reads, ofMessages, ofTypes,
    fun msg member => msg.display_record (agreeing msg member)⟩

/-- A struct of one four-byte number. -/
def sampleInner : MessageType where
  superSize := 0
  id := 0x00010004
  name := [73]
  fields := [{ type := 0x2004, length := 0, name := [120] }]
  fieldsCounted := by decide

/-- A struct that contains the other one. -/
def sampleOuter : MessageType where
  superSize := 0
  id := 0x00020008
  name := [79]
  fields := [{ type := 0x00010004, length := 0, name := [97] },
    { type := 0x2004, length := 0, name := [98] }]
  fieldsCounted := by decide

def sampleTypes : TypeCache :=
  (TypeCache.empty.add sampleInner (by decide) (by decide) (by decide)).add sampleOuter
    (by decide) (by decide) (by decide)

def sampleProcess : WriterProcess := { sizeT := .bits32, types := sampleTypes, pid := 77 }

/-- A message of the sample log. -/
def sampleMessage (body : LogMessageBody) (bodyFits : body.used ≤ logMessageLen) : LogMessage where
  seconds := 3
  nseconds := 4
  source := 5
  sequence := 6
  level := 1
  name := [112, 113]
  body := body
  nameFits := by decide
  bodyFits := bodyFits

def sampleMessages : List LogMessage :=
  [sampleMessage (.kString [104, 105]) (by decide),
    sampleMessage (.kStruct 0x00020008 [115] [0, 0, 0, 1, 0, 0, 0, 2]) (by decide),
    sampleMessage (.kMatrix 0x2004 1 2 [109] [0, 0, 0, 3, 0, 0, 0, 4]) (by decide)]

theorem sampleTypes_sized : Sized sampleTypes := by
  unfold Sized
  decide

theorem sampleMessages_acceptable : ∀ msg ∈ sampleMessages, sampleProcess.Acceptable msg := by
  simp only [sampleMessages, forall_mem_cons]
  refine ⟨trivial, .inr (by decide), ⟨by decide, by decide⟩, by simp⟩

/-- The hypotheses hold together: a string, a struct with a nested type and a
matrix are logged and read back. -/
theorem log_round_trip_sample : ∃ final,
    sampleProcess.handleMessages LoopState.start sampleMessages = .ok final ∧
      ReadsAll .bits64 final.writer.toPagedFile LogFileReader.atStart final.writer.records ∧
      final.writer.records.filter Record.ofMessage = sampleMessages.map LogMessage.record := by
  obtain ⟨final, handled⟩ := WriterProcess.handleMessages_total sampleTypes_sized _
    start_running sampleMessages_acceptable
  have result := log_round_trip sampleProcess sampleTypes_sized _ final handled .bits64
  exact ⟨final, handled, result.2.2.1, result.2.2.2.1⟩

end Miranda.LogFile
