import Miranda.LogFile.Spots

/-!
# Reading from a seekable page on

Every block of `kSeekPages` pages is meant to start without assumptions: a struct
record is preceded, in its own block, by the definitions of its type and of all
types nested in it. The writer decides whether to forget the written types from
the size of the message alone. When the definitions it then writes push the
message itself over the end of the block, the message is in the next block and
its definitions are not.

That no struct message leaves the block that was computed for it is stated on the
writer's state before the message, by placing the sizes of the pending type records
and of the message.
-/

namespace Miranda.LogFile

open Bytes Paged QueueTypes Runs List WriterProcess

/-- The record defines a type. -/
def Defines (process : WriterProcess) (typeId : TypeId) (record : Record) : Prop :=
  ∃ type, process.types.get typeId = some type ∧ record = process.typeRecord type.encoding

/-- Every struct record comes after the definitions it needs. -/
def SelfContained (process : WriterProcess) (records : List Record) : Prop :=
  ∀ before record after, records = before ++ record :: after →
    ∀ typeId string serialized, display record = some (.struct typeId string serialized) →
      ∀ inner, Contains process.types typeId inner →
        ∃ definition ∈ before, Defines process inner definition

/-- Placing the type records a struct message needs and the message itself, from
where the writer is or from the new page it forces, ends in the block
`ShouldClearSeekableData` computed from the message alone. -/
def WriterProcess.StaysInBlock (process : WriterProcess) (state : LoopState) (msg : LogMessage) :
    Prop :=
  match msg.body with
  | .kStruct typeId _ _ =>
    let entered := state.entered msg
    let pending := pendingTypes process.types process.typeDepth typeId entered.writtenTypeIds
    let sizes := pending.map (fun type => headerSize + type.serializedSize) ++ [msg.outputLength]
    (sizes.foldl placeNext entered.writer.spot).1 / kSeekPages =
      state.writer.nextSeekablePage msg.outputLength
  | _ => True

/-- One pass of the loop with a message that stays in its block. -/
def WriterProcess.StayingStep (process : WriterProcess) (state : LoopState) (msg : LogMessage)
    (next : LoopState) : Prop :=
  process.StaysInBlock state msg ∧ process.handleMessage state msg = .ok next

/-- The first address of a block. -/
def blockStart (block : Nat) : Nat := block * kSeekPages * kPageSize

/-- Every struct among the entries has its definitions in front of it, in every
block it is in itself. -/
def Preceded (process : WriterProcess) (published : List (Nat × Record)) : Prop :=
  ∀ before entry after, published = before ++ entry :: after →
    ∀ typeId string serialized, display entry.2 = some (.struct typeId string serialized) →
      ∀ inner, Contains process.types typeId inner →
        ∃ definition ∈ before, Defines process inner definition.2 ∧
          ∀ block, blockStart block ≤ entry.1 → blockStart block ≤ definition.1

/-- The written types are defined in the block of the cookie. -/
def Defined (process : WriterProcess) (state : LoopState) : Prop :=
  ∀ typeId ∈ state.writtenTypeIds, ∃ entry ∈ state.writer.published,
    Defines process typeId entry.2 ∧ blockStart state.clearTypeIdsCookie ≤ entry.1

/-- What the loop keeps about definitions as long as messages stay in their
blocks. -/
structure Covering (process : WriterProcess) (state : LoopState) : Prop where
  running : ∃ layout : Pages, Running state layout
  closed : Closed process.types state.writtenTypeIds
  defined : Defined process state
  preceded : Preceded process state.writer.published

section Covering

variable {process : WriterProcess} {state final : LoopState} {layout : Pages} {msg : LogMessage}
  {published : List (Nat × Record)}

/-- An entry may follow when its own definitions are there. -/
theorem Preceded.snoc {last : Nat × Record} (preceded : Preceded process published)
    (own : ∀ typeId string serialized, display last.2 = some (.struct typeId string serialized) →
      ∀ inner, Contains process.types typeId inner →
        ∃ definition ∈ published, Defines process inner definition.2 ∧
          ∀ block, blockStart block ≤ last.1 → blockStart block ≤ definition.1) :
    Preceded process (published ++ [last]) := by
  intro before entry after split typeId string serialized isStruct inner contains
  rcases eq_nil_or_concat after with rfl | ⟨earlier, final, rfl⟩
  · obtain ⟨rfl, same⟩ := append_inj' split rfl
    cases same
    exact own typeId string serialized isStruct inner contains
  · rw [concat_eq_append, ← cons_append, ← append_assoc] at split
    obtain ⟨parts, _⟩ := append_inj' split rfl
    exact preceded before entry earlier parts typeId string serialized isStruct inner contains

/-- Records of types need no definitions. -/
theorem Preceded.types (preceded : Preceded process published) {entries : List (Nat × Record)}
    {types : List MessageType}
    (records : entries.map Prod.snd = types.map fun type => process.typeRecord type.encoding) :
    Preceded process (published ++ entries) := by
  induction types generalizing published entries with
  | nil =>
    rw [map_eq_nil_iff.mp records]
    simpa using preceded
  | cons type rest ih =>
    obtain ⟨entry, others, rfl, record, later⟩ := map_eq_cons_iff.mp records
    rw [append_cons]
    apply ih _ later
    apply preceded.snoc
    intro typeId string serialized isStruct
    rw [record] at isStruct
    cases isStruct

/-- Entering a message's block keeps what was defined there. -/
theorem entered_defined (covering : Covering process state) (msg : LogMessage) :
    Closed process.types (state.entered msg).writtenTypeIds ∧
      Defined process (state.entered msg) := by
  unfold LoopState.entered
  split
  · exact ⟨covering.closed, covering.defined⟩
  · constructor
    · intro typeId member
      cases member
    · intro typeId member
      cases member

/-- Checking a type defines what was pending in the block of the cookie. -/
theorem checkTypeWritten_defined (sized : Sized process.types) {depth : Nat} {typeId : TypeId}
    (laid : Laid state.writer layout)
    (bound : state.clearTypeIdsCookie ≤ layout.closed.length / kSeekPages)
    (defined : Defined process state) (preceded : Preceded process state.writer.published)
    (checked : process.checkTypeWritten depth typeId state = .ok final) :
    Defined process final ∧ Preceded process final.writer.published := by
  have reached := checkTypeWritten_eq sized depth typeId state final checked
  set pending := pendingTypes _ depth typeId _ with isPending
  have small : ∀ type ∈ pending, type ∈ process.types.types ∧
      type.serializedSize ≤ typeBufferSize := fun _ member => pendingTypes_small member
  obtain ⟨_, _, entries, published, records, places⟩ := putTypes_spot
    process pending (fun type member => (small type member).2) laid
  rw [reached, published]
  refine ⟨?_, preceded.types records⟩
  intro other member
  rw [cookie_putTypes, published]
  rw [writtenTypeIds_putTypes] at member
  rcases mem_append.mp member with old | new
  · obtain ⟨entry, inside, defines, after⟩ := defined other old
    exact ⟨entry, mem_append_left _ inside, defines, after⟩
  · obtain ⟨type, isType, rfl⟩ := mem_map.mp new
    have record : process.typeRecord type.encoding ∈ entries.map Prod.snd := by
      rw [records]
      exact mem_map_of_mem isType
    obtain ⟨entry, inside, same⟩ := mem_map.mp record
    refine ⟨entry, mem_append_right _ inside,
      ⟨type, get_self (small type isType).1, same⟩, ?_⟩
    apply Nat.le_trans _ (places entry inside).1
    rw [spot_of_laid laid]
    exact Nat.mul_le_mul_right kPageSize (Nat.mul_le_of_le_div kSeekPages _ _ bound)

/-- A block that starts before an address of a page is at most the page's block. -/
theorem block_le {block page address : Nat} (starts : blockStart block ≤ address)
    (onPage : address < (page + 1) * kPageSize) : block ≤ page / kSeekPages := by
  simp only [blockStart, kPageSize, kSeekPages] at *
  omega

/-- The cookie is the block computed for the message when its types are checked. -/
theorem entered_cookie (state : LoopState) (msg : LogMessage) :
    (state.entered msg).clearTypeIdsCookie = state.writer.nextSeekablePage msg.outputLength := by
  unfold LoopState.entered
  split
  · assumption
  · rfl

/-- A struct message that stays in its block is placed in the block of the cookie. -/
theorem staysInBlock_spot (sized : Sized process.types) {typeId : TypeId}
    {string serialized : List UInt8} (isBody : msg.body = .kStruct typeId string serialized)
    (laid : Laid (state.entered msg).writer layout) (stays : process.StaysInBlock state msg)
    (checked : process.checkTypeWritten process.typeDepth typeId (state.entered msg) = .ok final) :
    (placeNext final.writer.spot msg.outputLength).1 / kSeekPages = final.clearTypeIdsCookie := by
  have reached := checkTypeWritten_eq sized _ _ _ _ checked
  have spot := (putTypes_spot process
    (pendingTypes process.types process.typeDepth typeId (state.entered msg).writtenTypeIds)
    (fun _ member => (pendingTypes_small member).2) laid).1
  simp only [StaysInBlock, isBody, foldl_append, foldl_cons,
    foldl_nil] at stays
  rw [reached, spot, cookie_putTypes, entered_cookie]
  exact stays

/-- One pass with a message that stays in its block keeps all definitions where
they are needed.

Proof: the types written while checking are defined in the block of the cookie,
and so is everything the message's type contains. The message ends up in that
block too, so no block that contains the message starts after a definition. -/
theorem stayingStep_covering (shareable : Shareable process.types)
    (covering : Covering process state) (step : process.StayingStep state msg final) :
    Covering process final := by
  obtain ⟨stays, handled⟩ := step
  obtain ⟨layout, running⟩ := covering.running
  obtain ⟨next, _, nextRunning, _⟩ :=
    handleMessage_running shareable.sized running handled
  obtain ⟨middle, prepared, agrees, rfl⟩ := handleMessage_ok handled
  have shown := msg.display_record agrees
  obtain ⟨middleLayout, _, middleLaid, _⟩ :=
    prepare_laid shareable.sized running prepared
  obtain ⟨moved, address, published, _, onPage⟩ :=
    put_spot process middleLaid msg.fits
  rw [msg.size_record] at moved published onPage
  have grow : Defined process middle → Defined process
      { middle with writer := process.put middle.writer msg.outputLength msg.record } := by
    intro defined typeId member
    obtain ⟨entry, inside, defines, after⟩ := defined typeId member
    refine ⟨entry, ?_, defines, after⟩
    show entry ∈ (process.put _ _ _).published
    rw [published]
    exact mem_append_left _ inside
  have other (notStruct : ∀ typeId string serialized,
      msg.body ≠ .kStruct typeId string serialized) : Covering process
      { middle with writer := process.put middle.writer msg.outputLength msg.record } := by
    have same := prepare_other notStruct prepared
    subst same
    refine ⟨⟨next, nextRunning⟩, covering.closed, grow covering.defined, ?_⟩
    show Preceded process _
    rw [published]
    apply covering.preceded.snoc
    intro typeId string serialized isStruct
    rw [shown, LogMessage.displayed] at isStruct
    split at isStruct <;> cases isStruct
    next isBody => exact absurd isBody (notStruct _ _ _)
  cases isBody : msg.body with
  | kString message | kMatrix type rows cols string data => exact other (by simp [isBody])
  | kStruct typeId string serialized =>
    have checked := prepare_struct isBody prepared
    obtain ⟨entered, enteredLaid, bound, enteredPublished⟩ :=
      entered_laid running msg
    obtain ⟨enteredClosed, enteredDefined⟩ := entered_defined covering msg
    obtain ⟨closed, _, own⟩ := checkTypeWritten_closed shareable _ _ _ _ checked
      enteredClosed
    have enteredPreceded : Preceded process (state.entered msg).writer.published := by
      rw [enteredPublished]
      exact covering.preceded
    obtain ⟨defined, preceded⟩ := checkTypeWritten_defined shareable.sized enteredLaid bound
      enteredDefined enteredPreceded checked
    have block : (process.put middle.writer msg.outputLength msg.record).spot.1 / kSeekPages =
        middle.clearTypeIdsCookie := by
      rw [moved]
      exact staysInBlock_spot shareable.sized isBody enteredLaid stays checked
    refine ⟨⟨next, nextRunning⟩, closed, grow defined, ?_⟩
    show Preceded process _
    rw [published]
    apply preceded.snoc
    intro shownId shownString shownData isStruct inner contains
    rw [shown, LogMessage.displayed, isBody] at isStruct
    cases isStruct
    obtain ⟨definition, inside, defines, after⟩ :=
      defined inner (contains.written closed (own contains.struct))
    refine ⟨definition, inside, defines, fun start starts => Nat.le_trans ?_ after⟩
    have early := block_le starts onPage
    rw [block] at early
    exact Nat.mul_le_mul_right kPageSize (Nat.mul_le_mul_right kSeekPages early)

/-- Definitions in front of every struct are still in front of it when only the
entries from a block on are looked at. -/
theorem Preceded.selfContained (preceded : Preceded process published) (block : Nat) :
    SelfContained process
      ((published.filter fun entry => blockStart block ≤ entry.1).map Prod.snd) := by
  intro before record after split typeId string serialized isStruct inner contains
  obtain ⟨early, late, parts, isEarly, isLate⟩ := map_eq_append_iff.mp split
  obtain ⟨entry, rest, rfl, isRecord, _⟩ := map_eq_cons_iff.mp isLate
  obtain ⟨first, second, whole, filtered, others⟩ := filter_eq_append_iff.mp parts
  obtain ⟨skipped, following, isSecond, outside, inside, _⟩ := filter_eq_cons_iff.mp others
  have place : published = (first ++ skipped) ++ entry :: following := by
    rw [whole, isSecond, append_assoc]
  obtain ⟨definition, member, defines, starts⟩ := preceded _ _ _ place typeId string serialized
    (by rw [isRecord]; exact isStruct) inner contains
  have near : blockStart block ≤ definition.1 := starts block (by simpa using inside)
  refine ⟨definition.2, ?_, defines⟩
  rw [← isEarly, ← filtered]
  apply mem_map_of_mem
  rcases mem_append.mp member with here | away
  · exact mem_filter.mpr ⟨here, by simpa using near⟩
  · exact absurd (by simpa using near) (outside definition away)

end Covering

theorem start_covering (process : WriterProcess) : Covering process LoopState.start where
  running := ⟨_, start_running⟩
  closed := by
    intro typeId member
    cases member
  defined := by
    intro typeId member
    cases member
  preceded := by
    intro before entry after split
    have empty : LoopState.start.writer.published = [] := rfl
    rw [empty] at split
    simp at split

/-- In every run whose struct messages stay in their blocks, whatever is read from
the start of a block on is self-contained.

Proof: by induction on the run every struct is preceded in its block by its types
(`stayingStep_covering`), and a block is read as it was laid out. -/
theorem seek_blocks_self_contained (process : WriterProcess)
    (shareable : Shareable process.types) (messages : List LogMessage) (final : LoopState)
    (run : Run process.StayingStep LoopState.start messages final) (sizeT : SizeT) (block : Nat)
    (present : block * kSeekPages < final.writer.pages) :
    ∃ records, ReadsAll sizeT final.writer.toPagedFile ⟨block * kSeekPages, 0⟩ records ∧
      SelfContained process records := by
  have covering : Covering process final := run.invariant (start_covering process)
    fun _ _ _ covering step => stayingStep_covering shareable covering step
  obtain ⟨layout, running⟩ := covering.running
  exact ⟨_, running.laid.readsAll sizeT present, covering.preceded.selfContained block⟩

/-- The largest string message. -/
def fillMessage : LogMessage where
  seconds := 0
  nseconds := 0
  source := 0
  sequence := 0
  level := 0
  name := List.replicate 100 97
  body := .kString (List.replicate 400 97)
  nameFits := Nat.le_of_eq List.length_replicate
  bodyFits := Nat.le_of_eq List.length_replicate

/-- A type with a long name: its record still fits the end of a full page. -/
def boundaryType : MessageType where
  superSize := 0
  id := 0x00030001
  name := List.replicate 240 97
  fields := [{ type := 0x2001, length := 0, name := [120] }]
  fieldsCounted := by decide

def boundaryProcess : WriterProcess where
  sizeT := .bits64
  types := TypeCache.empty.add boundaryType (by decide) (by decide) (by decide)
  pid := 1

/-- A struct message that would fit as well, but not after its type. -/
def boundaryMessage : LogMessage where
  seconds := 0
  nseconds := 0
  source := 0
  sequence := 0
  level := 0
  name := []
  body := .kStruct 0x00030001 [] [7]
  nameFits := by decide
  bodyFits := by decide

theorem fillMessage_length : fillMessage.outputLength = 532 := by
  have name : fillMessage.name.length = 100 := length_replicate
  have text : fillMessage.body.messageLength = 400 := length_replicate
  have length : fillMessage.outputLength = fillMessage.rawOutputLength := rfl
  rw [length, LogMessage.rawOutputLength, name, text, headerSize]

theorem boundaryType_size : boundaryType.serializedSize = 261 := by
  have name : boundaryType.name.length = 240 := length_replicate
  rw [MessageType.serializedSize, name]
  rfl

theorem boundaryTypes_shareable : Shareable boundaryProcess.types := by
  intro type member
  cases mem_singleton.mp member
  rw [boundaryType_size]
  decide

theorem boundary_pending :
    pendingTypes boundaryProcess.types boundaryProcess.typeDepth 0x00030001 [] =
      [boundaryType] := by
  have found : boundaryProcess.types.get 0x00030001 = some boundaryType := rfl
  have fits : boundaryType.serializedSize ≤ typeBufferSize := by
    rw [boundaryType_size]
    decide
  rw [typeDepth, pendingTypes_struct (by simp) (by decide) found,
    if_pos fits]
  rfl

theorem boundaryMessage_acceptable : boundaryProcess.Acceptable boundaryMessage :=
  .inr mem_cons_self

/-- The strings fill one page after another. -/
theorem boundary_filled (count : Nat) : ∃ (full : LoopState) (layout : Pages),
    boundaryProcess.handleMessages LoopState.start (List.replicate (count + 1) fillMessage) =
        .ok full ∧
      Running full layout ∧ full.writer.spot = (count / 30, (count % 30 + 1) * 536) ∧
      full.writtenTypeIds = [] ∧ full.clearTypeIdsCookie = 0 ∧
      full.writer.records = List.replicate (count + 1) fillMessage.record := by
  obtain ⟨full, layout, filled, running, spot, written, cookie, records⟩ :=
    handleMessages_strings boundaryTypes_shareable.sized (.replicate (count + 1) fillMessage)
      start_running fun msg member => by
        cases eq_of_mem_replicate member
        exact ⟨_, rfl⟩
  rw [map_replicate, fillMessage_length] at spot
  rw [map_replicate] at records
  exact ⟨full, layout, filled, running, spot.trans (foldl_placeNext_replicate count), written,
    cookie, records⟩

/-- Strings stay in their blocks. -/
theorem strings_staying {process : WriterProcess} {initial state final : LoopState}
    {before : List LogMessage} (messages : List LogMessage)
    (strings : ∀ msg ∈ messages, ∃ text, msg.body = .kString text)
    (run : Run process.StayingStep initial before state)
    (handled : process.handleMessages state messages = .ok final) :
    Run process.StayingStep initial (before ++ messages) final := by
  induction messages generalizing state before with
  | nil =>
    cases Except.ok.inj handled
    rwa [append_nil]
  | cons msg rest ih =>
    obtain ⟨text, isBody⟩ := strings msg mem_cons_self
    obtain ⟨middle, first, others⟩ := foldlM_cons_ok.mp handled
    rw [append_cons]
    refine ih (fun other inside => strings other (mem_cons_of_mem _ inside))
      (run.snoc ⟨?_, first⟩) others
    simp [StaysInBlock, isBody]

/-- The condition holds of a run that goes on into the second block, where the struct and the
definition of its type are put on a new page. -/
theorem seek_blocks_self_contained_sample : ∃ final,
    Run boundaryProcess.StayingStep LoopState.start
        (List.replicate 7681 fillMessage ++ [boundaryMessage]) final ∧
      1 * kSeekPages < final.writer.pages ∧
      ∃ records, ReadsAll .bits32 final.writer.toPagedFile ⟨1 * kSeekPages, 0⟩ records ∧
        SelfContained boundaryProcess records := by
  obtain ⟨full, layout, filled, running, spot, _, cookie, _⟩ := boundary_filled 7680
  obtain ⟨pages, position⟩ := Prod.mk.inj spot
  have isBody : boundaryMessage.body = .kStruct 0x00030001 [] [7] := rfl
  have next : full.writer.nextSeekablePage boundaryMessage.outputLength = 1 := by
    simp [LogFileWriter.nextSeekablePage, LogFileWriter.needNewPageFor, pages, position,
      show boundaryMessage.outputLength = 41 from rfl, kPageSize, kAlignment, futexSize, kSeekPages]
  have entered : (full.entered boundaryMessage).writer.spot = (257, 0) ∧
      (full.entered boundaryMessage).writtenTypeIds = [] := by
    rw [LoopState.entered, if_neg (by rw [cookie, next]; decide)]
    exact ⟨Prod.ext (by simp only [LogFileWriter.forceNewPage, LogFileWriter.spot]; omega) rfl, rfl⟩
  have stays : boundaryProcess.StaysInBlock full boundaryMessage := by
    simp only [StaysInBlock, isBody, entered, boundary_pending, next]
    rw [map_singleton, boundaryType_size]
    rfl
  obtain ⟨final, handled⟩ := handleMessage_total running boundaryMessage_acceptable
  have run := (strings_staying _ (fun msg member => by
    cases eq_of_mem_replicate member
    exact ⟨_, rfl⟩) (.nil _) filled).snoc ⟨stays, handled⟩
  have present : 1 * kSeekPages < final.writer.pages := by
    obtain ⟨last, _, lastRunning, _⟩ :=
      handleMessage_running boundaryTypes_shareable.sized running handled
    obtain ⟨middle, prepared, _, rfl⟩ := handleMessage_ok handled
    have checked := prepare_struct isBody prepared
    have bound : middle.clearTypeIdsCookie ≤ last.closed.length / kSeekPages := lastRunning.cookie
    rw [checkTypeWritten_eq boundaryTypes_shareable.sized _ _ _ _ checked,
      cookie_putTypes, entered_cookie, next, kSeekPages] at bound
    rw [lastRunning.laid.pages, kSeekPages]
    omega
  exact ⟨final, run, present,
    seek_blocks_self_contained boundaryProcess boundaryTypes_shareable _ final run .bits32 1 present⟩

/-- From there the struct's type goes to the last page of the block and the struct
to the next block. -/
theorem boundary_crossed {full final : LoopState} {layout : Pages} (running : Running full layout)
    (corner : full.writer.spot = (255, 16080)) (written : full.writtenTypeIds = [])
    (cookie : full.clearTypeIdsCookie = 0)
    (handled : boundaryProcess.handleMessage full boundaryMessage = .ok final) :
    ∃ first second, final.writer.published = full.writer.published ++
        [(first, boundaryProcess.typeRecord boundaryType.encoding),
          (second, boundaryMessage.record)] ∧
      first < blockStart 1 ∧ blockStart 1 ≤ second ∧ final.writer.spot.1 = 256 := by
  obtain ⟨pages, position⟩ := Prod.mk.inj corner
  have length : boundaryMessage.outputLength = 41 := rfl
  have entered : full.entered boundaryMessage = full := by
    apply if_pos
    simp [cookie, LogFileWriter.nextSeekablePage, LogFileWriter.needNewPageFor, pages, position,
      length, kPageSize, kAlignment, futexSize, kSeekPages]
  obtain ⟨middle, prepared, _, rfl⟩ := handleMessage_ok handled
  have checked := prepare_struct rfl prepared
  rw [entered] at checked
  have reached := checkTypeWritten_eq boundaryTypes_shareable.sized _ _ _ _ checked
  rw [written, boundary_pending] at reached
  have fits : ∀ type ∈ [boundaryType], type.serializedSize ≤ typeBufferSize := by
    intro type member
    cases mem_singleton.mp member
    rw [boundaryType_size]
    decide
  obtain ⟨typeSpot, _, entries, typePublished, typeRecords, places⟩ :=
    putTypes_spot _ _ fits running.laid
  obtain ⟨next, laid, _⟩ :=
    putTypes_laid _ _ fits running.laid
  rw [← reached] at typeSpot typePublished places laid
  have middleSpot : middle.writer.spot = (255, 16376) := by
    rw [typeSpot, corner, map_singleton, boundaryType_size]
    rfl
  obtain ⟨first, isEntry⟩ : ∃ first,
      entries = [(first, boundaryProcess.typeRecord _)] := by
    obtain ⟨⟨first, record⟩, others, rfl, isType, nothing⟩ := map_eq_cons_iff.mp typeRecords
    cases map_eq_nil_iff.mp nothing
    cases isType
    exact ⟨first, rfl⟩
  obtain ⟨moved, second, published, after, _⟩ :=
    put_spot _ laid boundaryMessage.fits
  rw [boundaryMessage.size_record] at moved published after
  have finalSpot : (boundaryProcess.put middle.writer boundaryMessage.outputLength
      boundaryMessage.record).spot = (256, 48) := by
    rw [moved, middleSpot]
    rfl
  refine ⟨first, second, ?_, ?_, ?_, by rw [finalSpot]⟩
  · rw [published, typePublished, isEntry, append_assoc]
    rfl
  · have below := (places (first, _) (by rw [isEntry]; exact mem_cons_self)).2
    rw [middleSpot] at below
    exact below
  · rw [finalSpot] at after
    exact after

/-- After a block that is full but for the end of its last page, a struct message
puts the definition of its type on that page and itself on the first page of the
next block. Reading from there finds a struct record whose type is not defined. -/
theorem seek_block_misses_definition : ∃ final records,
    Shareable boundaryProcess.types ∧
    boundaryProcess.handleMessages LoopState.start
      (List.replicate 7680 fillMessage ++ [boundaryMessage]) = .ok final ∧
    1 * kSeekPages < final.writer.pages ∧
    ReadsAll .bits64 final.writer.toPagedFile ⟨1 * kSeekPages, 0⟩ records ∧
    ¬SelfContained boundaryProcess records := by
  obtain ⟨full, layout, filled, running, corner, written, cookie, records⟩ := boundary_filled 7679
  obtain ⟨final, handled⟩ := handleMessage_total running boundaryMessage_acceptable
  obtain ⟨last, _, lastRunning, _⟩ :=
    handleMessage_running boundaryTypes_shareable.sized running handled
  obtain ⟨first, second, published, before, after, page⟩ :=
    boundary_crossed running corner written cookie handled
  have present : 1 * kSeekPages < final.writer.pages := by
    have pages : final.writer.pages - 1 = 256 := page
    rw [kSeekPages]
    omega
  have reads := lastRunning.laid.readsAll .bits64 present
  refine ⟨final, _, boundaryTypes_shareable, ?_, present, reads, ?_⟩
  · unfold handleMessages at filled ⊢
    rw [foldlM_append, filled]
    simp only [foldlM_cons, foldlM_nil, bind_pure]
    exact handled
  · intro selfContained
    have split : (final.writer.published.filter fun entry =>
        1 * kSeekPages * kPageSize ≤ entry.1).map Prod.snd =
        (full.writer.published.filter fun entry =>
          1 * kSeekPages * kPageSize ≤ entry.1).map Prod.snd ++ [boundaryMessage.record] := by
      have outside : ¬1 * kSeekPages * kPageSize ≤ first := Nat.not_le.mpr before
      have inside : 1 * kSeekPages * kPageSize ≤ second := after
      rw [published, filter_append, map_append,
        filter_cons_of_neg (by simpa using outside),
        filter_cons_of_pos (by simpa using inside)]
      rfl
    obtain ⟨definition, member, type, _, isType⟩ := selfContained _ _ [] split 0x00030001 [] [7] rfl
      0x00030001 (.self (by decide))
    obtain ⟨entry, filteredEntry, rfl⟩ := mem_map.mp member
    have inFull : entry.2 ∈ full.writer.records :=
      mem_map_of_mem (mem_of_mem_filter filteredEntry)
    rw [records] at inFull
    have kinds := congrArg Record.kind ((eq_of_mem_replicate inFull).symm.trans isType)
    cases kinds

end Miranda.LogFile
