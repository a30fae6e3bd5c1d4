import Mathlib.Algebra.GroupWithZero.Nat
import Miranda.Lib.Chain

/-!
# Mutexes and condition variables: `aos_sync`

Any number of threads call the functions on mutexes and conditions on any number of
them. A thread takes one step at a time: a store to the robust list, an atomic
operation on a futex, or what the kernel does in a system call. What the kernel is free
to choose is in the outcome of a step; its priority inheritance operations are
modelled by their documented effect on the futex. A thread may die at any point. The
kernel then follows its robust list, and its pending mutex, and hands on what it owns.

A futex word is its thread id field and its two flags. A thread id has 30 bits. The
pointers of the robust list are modelled without the bit that marks priority
inheritance and without an offset. The variant with `REQUEUE_PI`, the observers, the
mirror for the thread sanitizer and the cached thread id are not modelled.
-/

namespace Miranda.Sync

open Chain

/-- What fits in `FUTEX_TID_MASK`. -/
abbrev Tid := Fin (2 ^ 30)

instance tid_neZero : NeZero (2 ^ 30) := ⟨by decide⟩

/-- A futex of a mutex. -/
structure Word where
  owner : Option Tid := none
  /-- `FUTEX_WAITERS`. -/
  waiters : Bool := false
  /-- `FUTEX_OWNER_DIED`. -/
  died : Bool := false
  deriving DecidableEq

/-- The value 0. -/
abbrev Word.free : Word := {}

/-- What a pointer of a robust list leads to: the head in one thread's `robust_head`,
or a mutex. -/
inductive Node (μ : Type) where
  | head (tid : Tid)
  | mutex (m : μ)
  deriving DecidableEq

/-- What a lock operation comes back with. -/
inductive Result where
  /-- 0, or 1 if the previous owner died. -/
  | locked (died : Bool)
  /-- 2. -/
  | interrupted
  /-- 3. -/
  | timedOut
  /-- 4. -/
  | busy
  deriving DecidableEq

/-- The code the functions return. -/
def Result.code : Result → Nat
  | .locked false => 0
  | .locked true => 1
  | .interrupted => 2
  | .timedOut => 3
  | .busy => 4

/-- The callers of `mutex_do_get`. -/
inductive Get (κ : Type) where
  /-- `mutex_get`. -/
  | get (signalsFail timeout : Bool)
  /-- `condition_wait`, with its `wait_start`. -/
  | wait (c : κ) (start : UInt32)
  deriving DecidableEq

def Get.signalsFail {κ : Type} : Get κ → Bool
  | .get signalsFail _ => signalsFail
  | .wait _ _ => false

def Get.timeout {κ : Type} : Get κ → Bool
  | .get _ timeout => timeout
  | .wait _ _ => false

/-- What a mutex is being locked for. -/
inductive Call (κ : Type) where
  | doGet (get : Get κ)
  | trylock
  deriving DecidableEq

/-- What a mutex is put on the list for, once it is locked. -/
inductive Adding (κ : Type) where
  /-- `mutex_do_get` was successful, and says whether the previous owner died. -/
  | doGet (get : Get κ) (died : Bool)
  /-- The compare and swap of `mutex_trylock` was successful. -/
  | trySwap
  /-- `FUTEX_TRYLOCK_PI` was, and `mutex_finish_lock` is still to come. -/
  | trylockPi
  deriving DecidableEq

/-- The stores of `Adder::Add` that are still to come, with `old_head_next_value`. -/
inductive AddStage (μ : Type) where
  | next
  | head (old : Node μ)
  | previous (old : Node μ)
  | back (old : Node μ)
  deriving DecidableEq

/-- Where in `mutex_unlock` a thread is. -/
inductive UnlockStage (μ : Type) where
  /-- The load and the test of the owner. -/
  | check
  /-- The stores of `Remover`, with its `previous` and `next_value`. -/
  | pending
  | next
  | back (previous next : Node μ)
  /-- The compare and swap. -/
  | release
  /-- In `FUTEX_UNLOCK_PI`. -/
  | unlockPi
  /-- The destructor of `Remover`. -/
  | close
  deriving DecidableEq

/-- Where a thread is. -/
inductive Phase (μ κ : Type) where
  | idle
  /-- After a fatal error, before the process is gone. -/
  | fatal
  | dead
  /-- The constructor of `Adder`. -/
  | adder (call : Call κ) (m : μ)
  /-- The compare and swap of `mutex_do_get`. -/
  | getSwap (get : Get κ) (m : μ)
  /-- In `FUTEX_LOCK_PI`. -/
  | lockPi (get : Get κ) (m : μ)
  /-- The compare and swap of `mutex_trylock`. -/
  | trySwap (m : μ)
  /-- In `FUTEX_TRYLOCK_PI`. -/
  | trylockPi (m : μ)
  /-- The load of `mutex_finish_lock`. -/
  | finish (call : Call κ) (m : μ)
  /-- The store that clears `FUTEX_OWNER_DIED`. -/
  | clear (call : Call κ) (m : μ)
  /-- In `Add`. -/
  | add (adding : Adding κ) (m : μ) (stage : AddStage μ)
  /-- The destructor of `Adder` and the return. -/
  | close (call : Call κ) (m : μ) (result : Result)
  /-- In `mutex_unlock`, which `condition_wait` calls as well. -/
  | unlock (m : μ) (wait : Option (κ × UInt32)) (stage : UnlockStage μ)
  /-- The load of `condition_wait`. -/
  | read (c : κ) (m : μ)
  /-- About to wait in the kernel. -/
  | futexWait (c : κ) (m : μ) (start : UInt32)
  /-- Asleep in `FUTEX_WAIT`. -/
  | sleeping (c : κ) (m : μ) (start : UInt32)
  /-- The atomic addition of `condition_wake`. -/
  | increment (c : κ) (broadcast : Bool)
  /-- Its `FUTEX_WAKE`. -/
  | wake (c : κ) (broadcast : Bool)
  deriving DecidableEq

/-- The functions a thread may call. -/
inductive Operation (μ κ : Type) where
  | lock (m : μ)
  | lockTimeout (m : μ)
  | grab (m : μ)
  | trylock (m : μ)
  | unlock (m : μ)
  | wait (c : κ) (m : μ)
  | signal (c : κ)
  | broadcast (c : κ)
  deriving DecidableEq

/-- Where a call starts. -/
def Operation.begin {μ κ : Type} : Operation μ κ → Phase μ κ
  | .lock m => .adder (.doGet (.get true false)) m
  | .lockTimeout m => .adder (.doGet (.get true true)) m
  | .grab m => .adder (.doGet (.get false false)) m
  | .trylock m => .adder .trylock m
  | .unlock m => .unlock m none .check
  | .wait c m => .read c m
  | .signal c => .increment c false
  | .broadcast c => .increment c true

/-- What the kernel does in a step, where there is a choice. -/
inductive Outcome where
  | proceed
  /-- A lock operation succeeds, with or without `FUTEX_WAITERS` set. -/
  | acquire (waiters : Bool)
  /-- A lock operation begins to wait. -/
  | block
  /-- `EINTR`. -/
  | interrupted
  /-- `ETIMEDOUT`. -/
  | timedOut
  /-- `EDEADLK`. -/
  | deadlock
  /-- An unlock operation makes a waiter the owner. -/
  | handOver (waiter : Tid) (waiters : Bool)
  /-- A sleeper comes back although nobody woke it. -/
  | spurious
  /-- These sleepers are woken. -/
  | wake (woken : List Tid)
  deriving DecidableEq

inductive Event (μ κ : Type) where
  | call (operation : Operation μ κ)
  | advance (outcome : Outcome)
  /-- The thread dies, with these mutexes on its robust list. -/
  | die (list : List μ)
  deriving DecidableEq

/-- The number of sleepers that `condition_wake` asks to be woken. -/
def wakeCount (broadcast : Bool) : Nat :=
  let numberRequeue := if broadcast then 2 ^ 31 - 1 else 0
  min (max numberRequeue 1) (2 ^ 31 - 1 - 4096)

/-- The memory, the kernel's lists of sleepers and the threads. -/
structure State (μ κ : Type) where
  futex : μ → Word
  next : Node μ → Node μ
  previous : Node μ → Node μ
  pending : Tid → Option μ
  condition : κ → UInt32
  sleepers : κ → List Tid
  phase : Tid → Phase μ κ

namespace State

variable {μ κ : Type} [DecidableEq μ] [DecidableEq κ]

def goto (state : State μ κ) (tid : Tid) (phase : Phase μ κ) : State μ κ :=
  { state with phase := Function.update state.phase tid phase }

def setFutex (state : State μ κ) (m : μ) (word : Word) : State μ κ :=
  { state with futex := Function.update state.futex m word }

def setNext (state : State μ κ) (node value : Node μ) : State μ κ :=
  { state with next := Function.update state.next node value }

def setPrevious (state : State μ κ) (node value : Node μ) : State μ κ :=
  { state with previous := Function.update state.previous node value }

def setPending (state : State μ κ) (tid : Tid) (m : Option μ) : State μ κ :=
  { state with pending := Function.update state.pending tid m }

/-- The store to the previous pointer of what a next pointer leads to. The head does not
have one. -/
def setBack (state : State μ κ) (node value : Node μ) : State μ κ :=
  match node with
  | .head _ => state
  | .mutex m => state.setPrevious (.mutex m) value

def setSleepers (state : State μ κ) (c : κ) (sleepers : List Tid) : State μ κ :=
  { state with sleepers := Function.update state.sleepers c sleepers }

/-- A fatal error. -/
def abort (state : State μ κ) (tid : Tid) : State μ κ :=
  (state.setPending tid none).goto tid .fatal

/-- What follows the constructor of `Adder`. -/
def afterAdder (m : μ) : Call κ → Phase μ κ
  | .doGet (.wait c start) => .futexWait c m start
  | .doGet get => .getSwap get m
  | .trylock => .trySwap m

/-- What follows an interrupted wait for a mutex. -/
def afterSignal (get : Get κ) (m : μ) : Phase μ κ :=
  if get.signalsFail then .close (.doGet get) m .interrupted else .getSwap get m

/-- What follows `mutex_finish_lock`. -/
def afterFinish (m : μ) (died : Bool) : Call κ → Phase μ κ
  | .doGet get => .add (.doGet get died) m .next
  | .trylock => .close .trylock m (.locked died)

/-- A step in locking a mutex. -/
def advanceLock (state : State μ κ) (tid : Tid) (outcome : Outcome) : Option (State μ κ) :=
  match state.phase tid, outcome with
  | .adder call m, .proceed => some ((state.setPending tid (some m)).goto tid (afterAdder m call))
  | .getSwap get m, .proceed =>
    if state.futex m = .free then
      some ((state.setFutex m { owner := some tid }).goto tid
        (.add (.doGet get false) m .next))
    else some (state.goto tid (.lockPi get m))
  | .lockPi get m, .acquire waiters =>
    if (state.futex m).owner = none then
      some ((state.setFutex m { state.futex m with owner := some tid, waiters }).goto tid
        (.finish (.doGet get) m))
    else none
  | .lockPi _ m, .block =>
    if (state.futex m).owner = none ∨ (state.futex m).owner = some tid then none
    else some (state.setFutex m { state.futex m with waiters := true })
  | .lockPi get m, .interrupted => some (state.goto tid (afterSignal get m))
  | .lockPi get m, .timedOut =>
    if get.timeout then some (state.goto tid (.close (.doGet get) m .timedOut)) else none
  | .lockPi _ m, .deadlock =>
    if (state.futex m).owner = some tid then some (state.abort tid) else none
  | .trySwap m, .proceed =>
    if state.futex m = .free then
      some ((state.setFutex m { owner := some tid }).goto tid
        (.add .trySwap m .next))
    else if (state.futex m).died then some (state.goto tid (.trylockPi m))
    else some (state.goto tid (.close .trylock m .busy))
  | .trylockPi m, .acquire waiters =>
    if (state.futex m).owner = none then
      some ((state.setFutex m { state.futex m with owner := some tid, waiters }).goto tid
        (.add .trylockPi m .next))
    else none
  | .trylockPi m, .proceed =>
    if (state.futex m).owner = none then none else some (state.goto tid (.close .trylock m .busy))
  | .finish call m, .proceed =>
    if (state.futex m).died then some (state.goto tid (.clear call m))
    else some (state.goto tid (afterFinish m false call))
  | .clear call m, .proceed =>
    some ((state.setFutex m { state.futex m with died := false }).goto tid
      (afterFinish m true call))
  | .close _ _ _, .proceed => some ((state.setPending tid none).goto tid .idle)
  | _, _ => none

/-- What follows `Add`. -/
def afterAdd (m : μ) : Adding κ → Phase μ κ
  | .doGet get died => .close (.doGet get) m (.locked died)
  | .trySwap => .close .trylock m (.locked false)
  | .trylockPi => .finish .trylock m

/-- A store of `Add`. -/
def advanceAdd (state : State μ κ) (tid : Tid) (adding : Adding κ) (m : μ) :
    AddStage μ → State μ κ
  | .next =>
    let old := state.next (.head tid)
    (state.setNext (.mutex m) old).goto tid (.add adding m (.head old))
  | .head old => (state.setNext (.head tid) (.mutex m)).goto tid (.add adding m (.previous old))
  | .previous old =>
    (state.setPrevious (.mutex m) (.head tid)).goto tid (.add adding m (.back old))
  | .back old => (state.setBack old (.mutex m)).goto tid (afterAdd m adding)

/-- What follows `mutex_unlock`. -/
def afterUnlock (m : μ) : Option (κ × UInt32) → Phase μ κ
  | none => .idle
  | some (c, start) => .adder (.doGet (.wait c start)) m

/-- A step in `mutex_unlock`. -/
def advanceUnlock (state : State μ κ) (tid : Tid) (m : μ) (wait : Option (κ × UInt32)) :
    UnlockStage μ → Outcome → Option (State μ κ)
  | .check, .proceed =>
    if (state.futex m).owner = some tid then some (state.goto tid (.unlock m wait .pending))
    else some (state.abort tid)
  | .pending, .proceed =>
    some ((state.setPending tid (some m)).goto tid (.unlock m wait .next))
  | .next, .proceed =>
    let previous := state.previous (.mutex m)
    let next := state.next (.mutex m)
    some ((state.setNext previous next).goto tid (.unlock m wait (.back previous next)))
  | .back previous next, .proceed =>
    some ((state.setBack next previous).goto tid (.unlock m wait .release))
  | .release, .proceed =>
    if state.futex m = { owner := some tid } then
      some ((state.setFutex m .free).goto tid (.unlock m wait .close))
    else some (state.goto tid (.unlock m wait .unlockPi))
  | .unlockPi, .proceed => some ((state.setFutex m .free).goto tid (.unlock m wait .close))
  | .unlockPi, .handOver waiter waiters =>
    match state.phase waiter with
    | .lockPi get wanted =>
      if wanted = m then
        some (((state.setFutex m { owner := some waiter, waiters }).goto waiter
          (.finish (.doGet get) m)).goto tid (.unlock m wait .close))
      else none
    | _ => none
  | .close, .proceed => some ((state.setPending tid none).goto tid (afterUnlock m wait))
  | _, _ => none

/-- The phase of a sleeper that `FUTEX_WAIT` returns 0 to. -/
def awake : Phase μ κ → Phase μ κ
  | .sleeping c m start => .getSwap (.wait c start) m
  | phase => phase

/-- The sleepers on the list are woken and the thread that woke them is done. -/
def rouse (state : State μ κ) (tid : Tid) (c : κ) (woken : List Tid) : State μ κ :=
  { state with
    sleepers := Function.update state.sleepers c
      ((state.sleepers c).filter fun sleeper => sleeper ∉ woken)
    phase := fun thread =>
      if thread ∈ woken then awake (state.phase thread) else state.phase thread }.goto tid .idle

/-- A step on a condition. -/
def advanceCondition (state : State μ κ) (tid : Tid) (outcome : Outcome) : Option (State μ κ) :=
  match state.phase tid, outcome with
  | .read c m, .proceed => some (state.goto tid (.unlock m (some (c, state.condition c)) .check))
  | .futexWait c m start, .proceed =>
    if state.condition c = start then
      some ((state.setSleepers c (state.sleepers c ++ [tid])).goto tid (.sleeping c m start))
    else some (state.goto tid (.getSwap (.wait c start) m))
  | .futexWait _ _ _, .interrupted => some state
  | .sleeping c m start, .interrupted =>
    some ((state.setSleepers c ((state.sleepers c).erase tid)).goto tid (.futexWait c m start))
  | .sleeping c m start, .spurious =>
    some ((state.setSleepers c ((state.sleepers c).erase tid)).goto tid
      (.getSwap (.wait c start) m))
  | .increment c broadcast, .proceed =>
    some ({ state with condition := Function.update state.condition c (state.condition c + 1) }.goto
      tid (.wake c broadcast))
  | .wake c broadcast, .wake woken =>
    if woken.Nodup ∧ woken ⊆ state.sleepers c ∧
        woken.length = min (wakeCount broadcast) (state.sleepers c).length then
      some (state.rouse tid c woken)
    else none
  | _, _ => none

/-- The next step of a thread. -/
def advance (state : State μ κ) (tid : Tid) (outcome : Outcome) : Option (State μ κ) :=
  match state.phase tid with
  | .add adding m stage =>
    if outcome = .proceed then some (state.advanceAdd tid adding m stage) else none
  | .unlock m wait stage => state.advanceUnlock tid m wait stage outcome
  | .read _ _ | .futexWait _ _ _ | .sleeping _ _ _ | .increment _ _ | .wake _ _ =>
    state.advanceCondition tid outcome
  | _ => state.advanceLock tid outcome

/-- The kernel hands on what a dead thread owned of the mutexes on its robust list and
of the pending one. -/
def exit (state : State μ κ) (tid : Tid) (list : List μ) : State μ κ :=
  { state with
    futex := fun m =>
      if (m ∈ list ∨ state.pending tid = some m) ∧ (state.futex m).owner = some tid then
        { state.futex m with owner := none, died := true }
      else state.futex m
    sleepers := fun c => (state.sleepers c).erase tid }.goto tid .dead

/-- The mutexes that the kernel meets when it follows a robust list. -/
abbrev Visits (state : State μ κ) (tid : Tid) (list : List μ) : Prop :=
  Path state.next (.head tid) (list.map .mutex) (.head tid)

def step (state : State μ κ) (tid : Tid) : Event μ κ → Option (State μ κ)
  | .call operation =>
    if state.phase tid = .idle then some (state.goto tid operation.begin) else none
  | .advance outcome => state.advance tid outcome
  | .die list =>
    if state.phase tid ≠ .dead ∧ state.Visits tid list then some (state.exit tid list) else none

/-- A step with the thread that takes it. -/
def take (state : State μ κ) (label : Tid × Event μ κ) : Option (State μ κ) :=
  state.step label.1 label.2

/-- Nobody has called anything yet: the robust lists are empty and the mutexes
unlocked. The links of the mutexes and the conditions may have any value. -/
structure Fresh (state : State μ κ) : Prop where
  futex : ∀ m, state.futex m = .free
  next : ∀ tid, state.next (.head tid) = .head tid
  pending : ∀ tid, state.pending tid = none
  sleepers : ∀ c, state.sleepers c = []
  phase : ∀ tid, state.phase tid = .idle

end State

/-- One step of one thread. -/
abbrev Step {μ κ : Type} [DecidableEq μ] [DecidableEq κ] (state : State μ κ)
    (label : Tid × Event μ κ) (after : State μ κ) : Prop :=
  state.take label = some after

end Miranda.Sync
