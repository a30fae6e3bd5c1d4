import Miranda.Lib.Histories
import Mathlib.Logic.Function.Basic

/-!
# Watches of files

The starter watches files with inotify. Every `FileWatch` owns a watch descriptor, and the
map `watchers` leads from a descriptor in an event to the object. Removing a watch is
asynchronous: the kernel answers with a last event, `IN_IGNORED`, and only then is the
entry taken out of the map. Until then the object has no watch, but its descriptor in
`watch_to_remove_`.

The kernel is modelled by the descriptors that are watched and the queue of events, which
it never reorders. It gives out descriptors in order and does not use one twice. Which
events occur, which files can be watched and what the callbacks do with watches is left
open. One step handles one event, so a batch read at once is a sequence of steps; objects
are not destroyed.

The code does not remember that a watch was removed on purpose. An event that was queued
before the removal finds an object without a watch and fails its check, and `IN_IGNORED`
makes the object watch its file again. A removed watch stays removed exactly as long as
no event for it is handled.
-/

namespace Miranda.Starter

/-- Why the process ended: a `CHECK` failed, or a file could not be watched. -/
inductive Death where
  | check
  | fatal
  deriving DecidableEq, Repr

/-- A watch. `none` stands for the descriptor -1, and an empty name for no name to check. -/
structure FileWatch where
  checkFilename : List Char := []
  watch : Option Nat := none
  watchToRemove : Option Nat := none
  deriving DecidableEq, Repr

/-- Whether `FileNotified` calls the callback for an event with this name. -/
def FileWatch.accepts (watcher : FileWatch) (name : Option (List Char)) : Bool :=
  watcher.checkFilename.isEmpty || decide (name = some watcher.checkFilename)

structure INotifyEvent where
  wd : Nat
  /-- Whether the mask has `IN_IGNORED`. -/
  ignored : Bool
  name : Option (List Char) := none
  deriving DecidableEq, Repr

structure Kernel where
  next : Nat := 1
  live : List Nat := []
  queue : List INotifyEvent := []
  deriving DecidableEq, Repr

/-- A successful `inotify_add_watch`, which returns `next`. -/
def Kernel.addWatch (kernel : Kernel) : Kernel :=
  { kernel with next := kernel.next + 1, live := kernel.live ++ [kernel.next] }

/-- `inotify_rm_watch`, or the end of the watch of a deleted file. A descriptor that is not
watched any more gives an error and no event. -/
def Kernel.rmWatch (kernel : Kernel) (wd : Nat) : Kernel :=
  if wd ∈ kernel.live then
    { kernel with
      live := kernel.live.filter (· ≠ wd)
      queue := kernel.queue ++ [{ wd, ignored := true }] }
  else kernel

/-- What happens at a file that is watched. -/
def Kernel.notify (kernel : Kernel) (wd : Nat) (name : Option (List Char)) : Kernel :=
  if wd ∈ kernel.live then
    { kernel with queue := kernel.queue ++ [{ wd, ignored := false, name }] }
  else kernel

/-- What happened to an object: its callback was called, `RemoveWatch` was called, a watch
was created. -/
inductive Act where
  | called (object : Nat)
  | removed (object : Nat)
  | created (object : Nat) (wd : Nat)
  deriving DecidableEq, Repr

/-- The object that an act shows to be watching. -/
def Act.watching : Act → Option Nat
  | .called object => some object
  | .removed _ => none
  | .created object _ => some object

/-- The process with its kernel. Objects are numbered in the order of their construction. -/
structure Process where
  kernel : Kernel := {}
  count : Nat := 0
  objects : Nat → FileWatch := fun _ => {}
  watchers : Nat → Option Nat := fun _ => none
  history : List Act := []

def Process.setObject (process : Process) (object : Nat) (watcher : FileWatch) : Process :=
  { process with objects := Function.update process.objects object watcher }

def Process.note (process : Process) (act : Act) : Process :=
  { process with history := process.history ++ [act] }

/-- The kernel watches the file of the object, under the next descriptor. -/
def Process.watched (process : Process) (object : Nat) : Process :=
  { process with
    kernel := process.kernel.addWatch
    objects := Function.update process.objects object
      { process.objects object with watch := some process.kernel.next }
    watchers := Function.update process.watchers process.kernel.next (some object)
    history := process.history ++ [.created object process.kernel.next] }

/-- `found` says whether the file can be watched. -/
def createWatch (object : Nat) (found : Bool) (process : Process) : Except Death Process :=
  match (process.objects object).watch with
  | some _ => .error .check
  | none => if found then .ok (process.watched object) else .error .fatal

/-- A new object, without a watch. -/
def Process.allocated (process : Process) (checkFilename : List Char) : Process :=
  { process.setObject process.count { checkFilename } with count := process.count + 1 }

/-- The constructor of `FileWatch`. -/
def construct (checkFilename : List Char) (found : Bool) (process : Process) :
    Except Death Process :=
  createWatch process.count found (process.allocated checkFilename)

/-- The kernel is told to stop watching, and the object waits for its answer. -/
def Process.unwatched (process : Process) (object wd : Nat) : Process :=
  { process with
    kernel := process.kernel.rmWatch wd
    objects := Function.update process.objects object
      { process.objects object with watch := none, watchToRemove := some wd }
    history := process.history ++ [.removed object] }

def removeWatch (object : Nat) (process : Process) : Except Death Process :=
  match (process.objects object).watch, (process.objects object).watchToRemove with
  | none, _ => .error .check
  | some _, some _ => .error .check
  | some wd, none => .ok (process.unwatched object wd)

/-- An object takes its entry out of the map, if the entry leads to it. -/
def Process.forget (process : Process) (object wd : Nat) : Process :=
  if process.watchers wd = some object then
    { process with watchers := Function.update process.watchers wd none }
  else process

def removeWatchFromMap (object : Nat) (process : Process) : Except Death Process :=
  match (process.objects object).watchToRemove, (process.objects object).watch with
  | some wd, _ =>
    .ok ((process.forget object wd).setObject object
      { process.objects object with watchToRemove := none })
  | none, some wd =>
    .ok ((process.forget object wd).setObject object
      { process.objects object with watch := none })
  | none, none => .error .check

def watchDeleted (object : Nat) (found : Bool) (process : Process) : Except Death Process :=
  (removeWatchFromMap object process).bind (createWatch object found)

/-- What the program does with watches, in a callback or elsewhere. -/
inductive Operation where
  | construct (checkFilename : List Char) (found : Bool)
  | removeWatch (object : Nat)
  deriving DecidableEq, Repr

def operate (process : Process) : Operation → Except Death Process
  | .construct checkFilename found => construct checkFilename found process
  | .removeWatch object => removeWatch object process

/-- `callback` lists what the callback does, if it is called. -/
def fileNotified (object : Nat) (name : Option (List Char)) (callback : List Operation)
    (process : Process) : Except Death Process :=
  match (process.objects object).watch with
  | none => .error .check
  | some _ =>
    if (process.objects object).accepts name then
      callback.foldlM operate (process.note (.called object))
    else .ok process

/-- The first event leaves the queue. -/
def Process.taken (process : Process) : Process :=
  { process with kernel := { process.kernel with queue := process.kernel.queue.tail } }

/-- The body of the loop in `INotifyReadable`, for the first event in the queue. -/
def handleEvent (callback : List Operation) (found : Bool) (process : Process) :
    Except Death Process :=
  match process.kernel.queue with
  | [] => .ok process
  | event :: _ =>
    match process.watchers event.wd with
    | none => .ok process.taken
    | some object =>
      if event.ignored then watchDeleted object found process.taken
      else fileNotified object event.name callback process.taken

/-- A step of the system. -/
inductive Label where
  | operate (operation : Operation)
  | notify (wd : Nat) (name : Option (List Char))
  | delete (wd : Nat)
  | handle (callback : List Operation) (found : Bool)
  deriving DecidableEq, Repr

def step (process : Process) : Label → Except Death Process
  | .operate operation => Starter.operate process operation
  | .notify wd name => .ok { process with kernel := process.kernel.notify wd name }
  | .delete wd => .ok { process with kernel := process.kernel.rmWatch wd }
  | .handle callback found => handleEvent callback found process

/-- No callback is called and no watch is created for an object after its removal. -/
def Kept (history : List Act) : Prop :=
  Histories.Always
    (fun before act => ∀ object, act.watching = some object → .removed object ∉ before) history

/-- What the watches promise: removed ones stay removed, and the map leads from every
descriptor that is watched to the object that owns it. -/
structure Good (process : Process) : Prop where
  kept : Kept process.history
  owner : ∀ object wd, (process.objects object).watch = some wd →
    process.watchers wd = some object
  live : ∀ wd ∈ process.kernel.live, ∃ object,
    (process.objects object).watch = some wd ∧ process.watchers wd = some object

/-- No check failed, and what holds is promised of the state that was reached, if any. -/
def Safe (holds : Process → Prop) : Except Death Process → Prop
  | .ok next => holds next
  | .error death => death ≠ .check

theorem Safe.mono {before after : Process → Prop}
    (implies : ∀ process, before process → after process)
    {result : Except Death Process} (safe : Safe before result) : Safe after result := by
  cases result with
  | ok next => exact implies next safe
  | error death => exact safe

/-! ## Steps that leave removed watches alone -/

/-- `RemoveWatch` is only called on an object with a watch. -/
def Operation.calm (process : Process) : Operation → Bool
  | .construct _ _ => true
  | .removeWatch object => (process.objects object).watch.isSome

/-- The operations of a callback, one after the other, as long as the process lives. -/
def callbackCalm (process : Process) : List Operation → Bool
  | [] => true
  | operation :: rest =>
    operation.calm process &&
      match operate process operation with
      | .ok next => callbackCalm next rest
      | .error _ => true

/-- The event that is handled next is not for a removed watch. (An `IN_IGNORED` for one does
no harm if the file cannot be watched again, since the process ends there.) -/
def eventCalm (process : Process) (callback : List Operation) (found : Bool) : Bool :=
  match process.kernel.queue with
  | [] => true
  | event :: _ =>
    match process.watchers event.wd with
    | none => true
    | some object =>
      if event.ignored then (process.objects object).watch.isSome || !found
      else (process.objects object).watch.isSome &&
        (!(process.objects object).accepts event.name ||
          callbackCalm (process.taken.note (.called object)) callback)

def calm (process : Process) : Label → Bool
  | .operate operation => operation.calm process
  | .notify _ _ => true
  | .delete _ => true
  | .handle callback found => eventCalm process callback found

/-- A step that leaves removed watches alone. -/
def CalmStep (process : Process) (label : Label) (next : Process) : Prop :=
  calm process label = true ∧ step process label = .ok next

end Miranda.Starter
