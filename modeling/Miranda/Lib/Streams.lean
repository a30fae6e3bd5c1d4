import Miranda.Lib.Bytes

/-!
# Writing and reading at a moving address

A writer stores bytes at an address of an image and moves the address behind them. A
reader takes a value from an image and moves the address in the same way. Writers and
readers compose along the bytes they write and read: one after the other, and once for
every item of a list.

Nothing here says what the bytes are, only that a value has some.
-/

namespace Miranda.Streams

open Bytes

variable {α : Type}

/-- The writer stores exactly the bytes and moves behind them. -/
def Writes (write : Image × Nat → Image × Nat) (bytes : List UInt8) : Prop :=
  ∀ image address, write (image, address) = (store image address bytes, address + bytes.length)

/-- The reader takes the value from the bytes and moves behind them. -/
def Reads (read : Image → Nat → α × Nat) (bytes : List UInt8) (value : α) : Prop :=
  ∀ image address, Holds image address bytes →
    read image address = (value, address + bytes.length)

/-- Read a number of items one after the other. -/
def readMany (read : Image → Nat → α × Nat) : Nat → Image → Nat → List α × Nat
  | 0, _, address => ([], address)
  | number + 1, image, address =>
    let (item, address) := read image address
    let (items, address) := readMany read number image address
    (item :: items, address)

theorem Writes.comp {first second : Image × Nat → Image × Nat} {one two : List UInt8}
    (before : Writes first one) (after : Writes second two) :
    Writes (fun output => second (first output)) (one ++ two) := by
  intro image address
  dsimp only
  rw [before image address, after, store_store, List.length_append, Nat.add_assoc]

variable {code : α → List UInt8}

/-- Writing every item of a list writes the bytes of the items. -/
theorem writes_foldl {write : Image × Nat → α → Image × Nat}
    (each : ∀ item, Writes (fun output => write output item) (code item)) (items : List α) :
    Writes (fun output => items.foldl write output) (items.flatMap code) := by
  induction items with
  | nil =>
    intro image address
    rw [List.flatMap_nil, store_nil]
    rfl
  | cons item rest ih =>
    exact (each item).comp ih

/-- Reading as many items as a list has gives the list back from the bytes of its items. -/
theorem reads_many {read : Image → Nat → α × Nat} {items : List α}
    (each : ∀ item ∈ items, Reads read (code item) item) :
    Reads (readMany read items.length) (items.flatMap code) items := by
  induction items with
  | nil =>
    intro image address _
    rfl
  | cons item rest ih =>
    have others := ih fun other member => each other (List.mem_cons_of_mem _ member)
    intro image address holds
    obtain ⟨head, tail⟩ := holds_append.mp holds
    simp only [List.length_cons, readMany, each item List.mem_cons_self image address head,
      others image _ tail, List.flatMap_cons, List.length_append, Nat.add_assoc]

end Miranda.Streams
