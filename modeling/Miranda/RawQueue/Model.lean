import Miranda.Lib.CircularBuffer
import Miranda.RawQueue.Options

/-!
# The shared-memory message queue

One record holds the fields of a queue object, and one record holds the shared
memory: the header in front of every message and all queue objects. A message is
identified by the address of its header. Every function below follows the member
function of the same name, with the memory passed through explicitly.

A call ends in one of four ways. It returns; it parks its thread on a condition
variable with the lock released; the process dies in `LOG(FATAL)` or `abort`; or
a loop or a recycle chain outlasts the fuel its model was given. The last is not
a behaviour of the program, and the later modules show that it never happens for
queues built by the constructor. Assertions are compiled out and do not appear.

The two counters of messages and the reference counts are 32-bit and wrap. Ring
indices stay below the ring's length. The compare-and-swap loops of the free list
succeed at once here; their interleavings have their own module. A parked thread that
is woken starts its critical section again from the top, which is where the loops
around `Wait` resume.
-/

namespace Miranda

/-- The address of a message header. -/
abbrev Message := Nat

/-- The address of a queue object. -/
abbrev QueueId := Nat

abbrev ThreadId := Nat

/-- The number a 32-bit signed variable holds after being assigned `value`. -/
def int32 (value : Int) : Int := value.bmod (2 ^ 32)

theorem int32_of_bounds {value : Int} (low : -2 ^ 31 ≤ value) (high : value < 2 ^ 31) :
    int32 value = value := by
  unfold int32
  rw [Int.bmod_eq_of_le] <;> omega

/-- The fields of a queue object. A condition variable is the list of threads
parked on it. `written` is a history variable that no function reads: every
message ever stored in the ring, oldest first. -/
structure RawQueue where
  name : String
  length : Nat
  hash : Int
  queueLength : Int
  recycle : Option QueueId
  readable : List ThreadId
  writable : List ThreadId
  dataLength : Int
  dataStart : Int
  dataEnd : Int
  messages : Int
  data : Int → Message
  freeMessages : Option Message
  writableStart : Bool
  readableWaiting : Bool
  written : List Message

namespace RawQueue

/-- Messages beyond the queue length in the pool of each queue. -/
def kExtraMessages : Nat := 20

structure MessageHeader where
  next : Option Message
  refCount : Int

/-- Why a process died. -/
inductive Fatal where
  | overusedPool (name : String)
  | queueTooShort (queueLength : Int) (name : String)
  | illegalWriteOptions (printable : BitVec 32)
  | invalidWriteOptions (printable : BitVec 32)
  | illegalReadOptions (printable : BitVec 32)
  | invalidReadOptions (printable : BitVec 32)
  | fromEndAndPeek
  | recycleWriteFailed
deriving DecidableEq

/-- Shared memory as the queues see it. -/
structure Shm where
  header : Message → MessageHeader
  queues : QueueId → RawQueue

/-- How a call ends. -/
inductive Outcome (α : Type) where
  | returned (value : α) (shm : Shm)
  | waiting (shm : Shm)
  | died (reason : Fatal)
  | unfinished

def Outcome.bind {α β : Type} (outcome : Outcome α) (next : α → Shm → Outcome β) :
    Outcome β :=
  match outcome with
  | .returned value shm => next value shm
  | .waiting shm => .waiting shm
  | .died reason => .died reason
  | .unfinished => .unfinished

namespace Shm

def updateQueue (shm : Shm) (q : QueueId) (change : RawQueue → RawQueue) : Shm :=
  { shm with queues := fun other => if other = q then change (shm.queues q) else shm.queues other }

def updateHeader (shm : Shm) (msg : Message) (change : MessageHeader → MessageHeader) : Shm :=
  { shm with header := fun other =>
      if other = msg then change (shm.header msg) else shm.header other }

def setRefCount (shm : Shm) (msg : Message) (count : Int) : Shm :=
  shm.updateHeader msg fun header => { header with refCount := count }

def refCountAdd (shm : Shm) (msg : Message) : Shm :=
  shm.updateHeader msg fun header => { header with refCount := int32 (header.refCount + 1) }

def refCountSub (shm : Shm) (msg : Message) : Shm :=
  shm.updateHeader msg fun header => { header with refCount := int32 (header.refCount - 1) }

/-- The tail of `DoFreeMessage`: link the header in front of the free list. -/
def pushFree (shm : Shm) (q : QueueId) (msg : Message) : Shm :=
  let newNext := (shm.queues q).freeMessages
  (shm.updateHeader msg fun header => { header with next := newNext }).updateQueue q
    fun queue => { queue with freeMessages := some msg }

end Shm

def indexAdd1 (queue : RawQueue) (index : Int) : Int :=
  CircularBuffer.advance queue.dataLength index

def isWritable (queue : RawQueue) : Bool := queue.indexAdd1 queue.dataEnd != queue.dataStart

def lastMessageIndex (queue : RawQueue) : Int :=
  let pos := queue.dataEnd - 1
  if pos < 0 then queue.dataLength - 1 else pos

def getMessage (q : QueueId) (shm : Shm) : Outcome Message :=
  match (shm.queues q).freeMessages with
  | none => .died (.overusedPool (shm.queues q).name)
  | some header =>
      let next := (shm.header header).next
      .returned header
        ((shm.updateQueue q fun queue => { queue with freeMessages := next }).setRefCount header 1)

/-- Drop one reference and hand the message to `free` when none is left. -/
def decrementMessageReferenceCount (free : Message → Shm → Outcome Unit)
    (msg : Message) (shm : Shm) : Outcome Unit :=
  let shm := shm.refCountSub msg
  if (shm.header msg).refCount = 0 then free msg shm else .returned () shm

def incrementMessageReferenceCount (msg : Message) (shm : Shm) : Shm := shm.refCountAdd msg

/-- The loop of `DoWriteMessage`: find room, give up, evict or park. The result is
the new end of the ring, or nothing when the write fails. -/
def writeLoop (release : Message → Shm → Outcome Unit) (thread : ThreadId) (q : QueueId)
    (msg : Message) (options : Options) : Nat → Shm → Outcome (Option Int)
  | 0, _ => .unfinished
  | fuel + 1, shm =>
      let queue := shm.queues q
      let newEnd := queue.indexAdd1 queue.dataEnd
      if newEnd ≠ queue.dataStart then .returned (some newEnd) shm
      else if options.has kNonBlock then
        (release msg shm).bind fun _ shm => .returned none shm
      else if options.has kOverride then
        (release (queue.data queue.dataStart) shm).bind fun _ shm =>
          writeLoop release thread q msg options fuel (shm.updateQueue q fun queue =>
            { queue with dataStart := queue.indexAdd1 queue.dataStart })
      else
        .waiting (shm.updateQueue q fun queue =>
          { queue with writable := thread :: queue.writable })

/-- Store a message at the end of the ring and clear the waiting flag. -/
def storeMessage (msg : Message) (newEnd : Int) (queue : RawQueue) : RawQueue :=
  { queue with
    data := CircularBuffer.store queue.data queue.dataEnd msg
    messages := int32 (queue.messages + 1)
    dataEnd := newEnd
    readableWaiting := false
    written := queue.written ++ [msg] }

/-- The critical section of `DoWriteMessage`. A successful write reports whether
readers have to be signalled after the lock is released. -/
def writeCritical (release : Message → Shm → Outcome Unit) (thread : ThreadId) (q : QueueId)
    (msg : Message) (options : Options) (shm : Shm) : Outcome (Option Bool) :=
  (writeLoop release thread q msg options ((shm.queues q).dataLength.toNat + 1) shm).bind
    fun newEnd shm =>
      match newEnd with
      | none => .returned none shm
      | some newEnd =>
          let signalReadable := (shm.queues q).readableWaiting
          .returned (some signalReadable) (shm.updateQueue q (storeMessage msg newEnd))

/-- Wake every thread parked on `readable_`. -/
def broadcastReadable (q : QueueId) (shm : Shm) : Shm :=
  shm.updateQueue q fun queue => { queue with readable := [] }

def doWriteMessage (release : Message → Shm → Outcome Unit) (thread : ThreadId) (q : QueueId)
    (msg : Message) (options : Options) (shm : Shm) : Outcome Bool :=
  (writeCritical release thread q msg options shm).bind fun result shm =>
    match result with
    | none => .returned false shm
    | some true => .returned true (broadcastReadable q shm)
    | some false => .returned true shm

/-- The public wrapper around `DoWriteMessage`. -/
def writeMessageWith (release : Message → Shm → Outcome Unit) (thread : ThreadId) (q : QueueId)
    (msg : Message) (options : Options) (shm : Shm) : Outcome Bool :=
  if !options.noOthersSet kWriteFailureOptions then .died (.illegalWriteOptions options.bits)
  else if !options.exactlyOneSet kWriteFailureOptions then
    .died (.invalidWriteOptions options.bits)
  else doWriteMessage release thread q msg options shm

/-- Free a message to the pool of its queue, or trade it with the recycle queue.
`depth` bounds the chain of recycle queues. -/
def doFreeMessage (thread : ThreadId) : Nat → QueueId → Message → Shm → Outcome Unit
  | 0, _, _, _ => .unfinished
  | depth + 1, q, msg, shm =>
      match (shm.queues q).recycle with
      | none => .returned () (shm.pushFree q msg)
      | some recycle =>
          (getMessage recycle shm).bind fun newMsg shm =>
            (writeMessageWith
              (decrementMessageReferenceCount (doFreeMessage thread depth recycle))
              thread recycle msg kOverride (shm.refCountAdd msg)).bind fun written shm =>
                if written then .returned () (shm.pushFree q newMsg)
                else .died .recycleWriteFailed

/-- `Fetch` joins a queue to a recycle queue that it fetches without one, so a
chain has at most two queues. -/
def recycleDepth : Nat := 2

/-- `DecrementMessageReferenceCount` as a member function of one queue. -/
def release (thread : ThreadId) (q : QueueId) : Message → Shm → Outcome Unit :=
  decrementMessageReferenceCount (doFreeMessage thread recycleDepth q)

def writeMessage (thread : ThreadId) (q : QueueId) (msg : Message) (options : Options)
    (shm : Shm) : Outcome Bool :=
  writeMessageWith (release thread q) thread q msg options shm

def freeMessage (thread : ThreadId) (q : QueueId) (msg : Option Message) (shm : Shm) :
    Outcome Unit :=
  match msg with
  | none => .returned () shm
  | some msg => release thread q msg shm

/-- The wait condition of a reader: nothing in the ring, or nothing newer than
the reader's own index. -/
def mustWait (queue : RawQueue) (index : Option Int) : Bool :=
  queue.dataStart == queue.dataEnd ||
    match index with
    | none => false
    | some index => decide (queue.messages ≤ index)

def readCommonStart (thread : ThreadId) (q : QueueId) (options : Options)
    (index : Option Int) (shm : Shm) : Outcome Bool :=
  if (shm.queues q).mustWait index then
    if options.has kNonBlock then .returned false shm
    else
      .waiting (shm.updateQueue q fun queue =>
        { queue with readableWaiting := true, readable := thread :: queue.readable })
  else
    .returned true (shm.updateQueue q fun queue =>
      { queue with writableStart := queue.isWritable })

def readCommonEnd (q : QueueId) (shm : Shm) : Shm :=
  let queue := shm.queues q
  if queue.isWritable then
    if !queue.writableStart then
      shm.updateQueue q fun queue => { queue with writable := [] }
    else shm
  else shm

/-- The loop of `DoReadMessage` that empties the ring and keeps its last message. -/
def drainLoop (release : Message → Shm → Outcome Unit) (q : QueueId) :
    Nat → Shm → Outcome Message
  | 0, _ => .unfinished
  | fuel + 1, shm =>
      let pos := (shm.queues q).dataStart
      let shm := shm.updateQueue q fun queue =>
        { queue with dataStart := queue.indexAdd1 queue.dataStart }
      let queue := shm.queues q
      if queue.dataStart = queue.dataEnd then .returned (queue.data pos) shm
      else (release (queue.data pos) shm).bind fun _ shm => drainLoop release q fuel shm

def doReadMessage (thread : ThreadId) (q : QueueId) (options : Options) (shm : Shm) :
    Outcome (Option Message) :=
  (readCommonStart thread q options none shm).bind fun ready shm =>
    if !ready then .returned none shm
    else
      let queue := shm.queues q
      if options.has kFromEnd then
        if options.has kPeek then
          let msg := queue.data queue.lastMessageIndex
          .returned (some msg) (readCommonEnd q (incrementMessageReferenceCount msg shm))
        else
          (drainLoop (release thread q) q queue.dataLength.toNat shm).bind fun msg shm =>
            .returned (some msg) (readCommonEnd q shm)
      else
        let msg := queue.data queue.dataStart
        if options.has kPeek then
          .returned (some msg) (readCommonEnd q (incrementMessageReferenceCount msg shm))
        else
          .returned (some msg) (readCommonEnd q (shm.updateQueue q fun queue =>
            { queue with dataStart := queue.indexAdd1 queue.dataStart }))

def checkReadOptions (options : Options) : Option Fatal :=
  if !options.noOthersSet kValidOptions then some (.illegalReadOptions options.bits)
  else if !options.exactlyOneSet kBlockChoices then some (.invalidReadOptions options.bits)
  else none

def readMessage (thread : ThreadId) (q : QueueId) (options : Options) (shm : Shm) :
    Outcome (Option Message) :=
  match checkReadOptions options with
  | some reason => .died reason
  | none => doReadMessage thread q options shm

/-- The slot `DoReadMessageIndex` reads without `kFromEnd`, and the index it has
caught up to by then. -/
def indexedSlot (queue : RawQueue) (index : Int) : Int × Int :=
  let unreadMessages := int32 (queue.messages - index)
  let currentMessages :=
    CircularBuffer.distance queue.dataLength queue.dataStart queue.dataEnd
  if unreadMessages > currentMessages then
    (queue.dataStart, int32 (queue.messages - currentMessages))
  else
    let myStart := queue.dataEnd - unreadMessages
    (if myStart < 0 then myStart + queue.dataLength else myStart, index)

/-- Returns the message and the caller's index afterwards. -/
def doReadMessageIndex (thread : ThreadId) (q : QueueId) (options : Options) (index : Int)
    (shm : Shm) : Outcome (Option Message × Int) :=
  (readCommonStart thread q options (some index) shm).bind fun ready shm =>
    if !ready then .returned (none, index) shm
    else
      let queue := shm.queues q
      if options.has kFromEnd then
        let msg := queue.data queue.lastMessageIndex
        .returned (some msg, queue.messages)
          (readCommonEnd q (incrementMessageReferenceCount msg shm))
      else
        let (myStart, caughtUp) := queue.indexedSlot index
        let msg := queue.data myStart
        .returned (some msg, if options.has kPeek then caughtUp else int32 (caughtUp + 1))
          (readCommonEnd q (incrementMessageReferenceCount msg shm))

def readMessageIndex (thread : ThreadId) (q : QueueId) (options : Options) (index : Int)
    (shm : Shm) : Outcome (Option Message × Int) :=
  match checkReadOptions options with
  | some reason => .died reason
  | none =>
      if options.allSet kFromEndAndPeek then .died .fromEndAndPeek
      else doReadMessageIndex thread q options index shm

/-- The constructor's loop over freshly allocated headers, first to last. -/
def linkMessages (shm : Shm) (previous : Option Message) : List Message → Shm × Option Message
  | [] => (shm, previous)
  | message :: rest =>
      linkMessages (shm.updateHeader message fun header => { header with next := previous })
        (some message) rest

/-- The constructor. The addresses `shm_malloc` returns, and the contents of the
memory the constructor does not initialise, are supplied by the caller. -/
def construct (name : String) (length : Nat) (hash queueLength : Int)
    (shmMalloc : Nat → Message) (uninitialised : RawQueue) (q : QueueId) (shm : Shm) :
    Outcome Unit :=
  if queueLength < 1 then .died (.queueTooShort queueLength uninitialised.name)
  else
    let allocated := (List.range (queueLength + kExtraMessages).toNat).map shmMalloc
    let (linked, freeMessages) := linkMessages shm none allocated
    .returned () (linked.updateQueue q fun _ =>
      { name, length, hash, queueLength
        recycle := none
        readable := []
        writable := []
        dataLength := queueLength + 1
        dataStart := 0
        dataEnd := 0
        messages := 0
        data := uninitialised.data
        freeMessages
        writableStart := uninitialised.writableStart
        readableWaiting := false
        written := [] })

end RawQueue

end Miranda
