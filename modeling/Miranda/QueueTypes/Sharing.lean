import Miranda.LogFile.TypeRecords
import Mathlib.Logic.Function.Basic

/-!
# Types in shared memory

Every process has a cache of the types it knows. `AddShm` puts a type, with the types of its
fields, into a list in shared memory where the other processes find it. It looks for the type
and appends it in one critical section, under the locks of the cache and of the list. For
the fields it calls itself after the locks were released.

The system is any number of threads, each with the calls of `AddShm` it is in, of any number
of processes. A critical section is one step. The id of a type is a hash of its definition,
so one dictionary serves all processes; what a process knows is a part of it. An entry of
the list is represented by the type that was serialized into it. A step without a result is
one that ends the process: an unknown type, or one that does not fit the buffer.

A type is in the list before the types of its fields are. A second call for the same type
returns at once in between, in another process or thread, with the types of the fields
missing. If no other thread is in that place, for the type a call looks for or for one that it
contains, every call returns with all parts in the list.
-/

namespace Miranda.QueueTypes

open Bytes LogFile

/-- A call of `AddShm`: before its critical section, or with the fields still to visit. -/
inductive Frame where
  | entering (typeId : TypeId)
  | visiting (typeId : TypeId) (rest : List Field)
  deriving DecidableEq

/-- The shared list, the caches with their `in_shm` flags, the calls of each thread, innermost
first, and the history of the calls that have returned. -/
structure Sharing (θ π : Type) where
  shared : List MessageType := []
  caches : π → TypeId → Option Bool := fun _ _ => none
  threads : θ → List Frame := fun _ => []
  returned : List TypeId := []

inductive SharingEvent (θ π : Type) where
  | add (process : π) (typeId : TypeId)
  | get (process : π) (typeId : TypeId)
  | addShm (thread : θ) (typeId : TypeId)
  | enter (thread : θ)
  | visit (thread : θ)
  deriving DecidableEq

variable {θ π : Type}

namespace Sharing

def ids (sharing : Sharing θ π) : List TypeId := sharing.shared.map MessageType.id

def cache [DecidableEq π] (sharing : Sharing θ π) (process : π) (typeId : TypeId)
    (inShm : Bool) : Sharing θ π :=
  { sharing with
    caches := Function.update sharing.caches process
      (Function.update (sharing.caches process) typeId (some inShm)) }

def setStack [DecidableEq θ] (sharing : Sharing θ π) (thread : θ) (stack : List Frame) :
    Sharing θ π :=
  { sharing with threads := Function.update sharing.threads thread stack }

/-- A call returns to the one below it. -/
def finish [DecidableEq θ] (sharing : Sharing θ π) (thread : θ) (typeId : TypeId)
    (below : List Frame) : Sharing θ π :=
  { sharing.setStack thread below with returned := sharing.returned ++ [typeId] }

/-- `Add`. The types of the fields must have been added before. -/
def add [DecidableEq π] (types : TypeCache) (process : π) (typeId : TypeId)
    (sharing : Sharing θ π) : Option (Sharing θ π) :=
  match types.get typeId, sharing.caches process typeId with
  | some type, none =>
    if type.fields.all fun field =>
        isPrimitive field.type || (sharing.caches process field.type).isSome then
      some (sharing.cache process typeId false)
    else none
  | some _, some _ => some sharing
  | none, _ => none

/-- `Get`. -/
def get [DecidableEq π] (process : π) (typeId : TypeId) (sharing : Sharing θ π) :
    Option (Sharing θ π) :=
  match sharing.caches process typeId with
  | some _ => some sharing
  | none => if typeId ∈ sharing.ids then some (sharing.cache process typeId true) else none

/-- The critical section of `AddShm`. -/
def enter [DecidableEq θ] [DecidableEq π] (types : TypeCache) (process : π) (thread : θ)
    (typeId : TypeId) (below : List Frame) (sharing : Sharing θ π) : Option (Sharing θ π) :=
  match sharing.caches process typeId, types.get typeId with
  | some true, some _ => some (sharing.finish thread typeId below)
  | some false, some type =>
    if typeId ∈ sharing.ids then
      some ((sharing.cache process typeId true).finish thread typeId below)
    else if (type.serialize blank 768).isSome then
      some ({ sharing with shared := sharing.shared ++ [type] }.setStack thread
        (.visiting typeId type.fields :: below))
    else none
  | _, _ => none

/-- The loop over the fields, and the end of `AddShm`. -/
def visit [DecidableEq θ] (thread : θ) (typeId : TypeId) (below : List Frame)
    (sharing : Sharing θ π) : List Field → Sharing θ π
  | [] => sharing.finish thread typeId below
  | field :: rest =>
    if isPrimitive field.type then sharing.setStack thread (.visiting typeId rest :: below)
    else sharing.setStack thread (.entering field.type :: .visiting typeId rest :: below)

/-- A step of the system. `owner` is the process of a thread. -/
def step [DecidableEq θ] [DecidableEq π] (types : TypeCache) (owner : θ → π)
    (sharing : Sharing θ π) : SharingEvent θ π → Option (Sharing θ π)
  | .add process typeId => sharing.add types process typeId
  | .get process typeId => sharing.get process typeId
  | .addShm thread typeId =>
    match sharing.threads thread with
    | [] => some (sharing.setStack thread [.entering typeId])
    | _ => none
  | .enter thread =>
    match sharing.threads thread with
    | .entering typeId :: below => sharing.enter types (owner thread) thread typeId below
    | _ => none
  | .visit thread =>
    match sharing.threads thread with
    | .visiting typeId rest :: below => some (sharing.visit thread typeId below rest)
    | _ => none

end Sharing

/-- A type and everything it contains are in the list. -/
def Whole (types : TypeCache) (ids : List TypeId) (typeId : TypeId) : Prop :=
  typeId ∈ ids ∧ ∀ inner, Contains types typeId inner → inner ∈ ids

/-- Every type whose `AddShm` has returned is in the list with everything it contains, and no
type is in the list twice. -/
structure Complete (types : TypeCache) (sharing : Sharing θ π) : Prop where
  whole : ∀ typeId ∈ sharing.returned, Whole types sharing.ids typeId
  distinct : sharing.ids.Nodup

/-- The thread is in a call of `AddShm` that has appended the type and not yet returned from
adding the types of its fields. -/
def Sharing.Adding (sharing : Sharing θ π) (thread : θ) (typeId : TypeId) : Prop :=
  ∃ rest, .visiting typeId rest ∈ sharing.threads thread

/-- Where a call looks for its type, no other thread is adding the fields of this type or of
one it contains. This speaks of the calls in progress only, not of what is in the list. -/
def Quiet (types : TypeCache) (sharing : Sharing θ π) : SharingEvent θ π → Prop
  | .enter thread => ∀ typeId below, sharing.threads thread = .entering typeId :: below →
      ∀ other ≠ thread, ∀ inner, Contains types typeId inner → ¬ sharing.Adding other inner
  | _ => True

/-- A step that no other call is in the way of. -/
def QuietStep [DecidableEq θ] [DecidableEq π] (types : TypeCache) (owner : θ → π)
    (sharing : Sharing θ π) (event : SharingEvent θ π) (next : Sharing θ π) : Prop :=
  Quiet types sharing event ∧ sharing.step types owner event = some next

end Miranda.QueueTypes
