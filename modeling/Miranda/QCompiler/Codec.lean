import Mathlib.Algebra.GroupWithZero.Nat
import Mathlib.Logic.Function.Basic
import Miranda.Lib.Bytes
import Miranda.QCompiler.Declarations

/-!
# The generated codec

For every declaration the compiler emits a `Serialize` and a `Deserialize`. Their
bodies are lists of calls, one for each primitive member, with a loop around the
calls for the elements of an array. Offsets into the buffer are sums that grow on
the way: the size of the parent class, the sizes of the members before, and the
loop variable times the size of an element.

The emitted statements are data here, and running them gives the calls with their
fields and offsets. Every loop has a variable of its own, so a call within several
loops sees the indices of all of them. Run in order, the calls name the leaves of
the declaration in order, and their ranges tile the bytes after the parent's.

Within the emitted functions the name `buffer` is the parameter. A call for a
member of that name does not reach the member of the message, and neither function
does what it should; such a call gives no result here. How C++ values are laid out
in memory is not modelled: a value is a number of as many bytes as its type has.
-/

namespace Miranda.QCompiler

open Bytes Layouts List

/-- A summand of an offset: a number or a loop variable times a size. -/
inductive Term where
  | literal (value : Nat)
  | index (loopVar size : Nat)
  deriving DecidableEq, Repr

/-- The offset in the brackets after `buffer`, a sum. -/
abbrev Offset := List Term

/-- The body of an emitted function. A call converts the field and the bytes at the
offset; in the path of a field an index is the number of a loop variable. -/
inductive Suite where
  | done
  | call (type : Primitive) (field : Path Word) (offset : Offset) (rest : Suite)
  | loop (loopVar length : Nat) (body rest : Suite)
  deriving Repr

namespace Suite

def append : Suite → Suite → Suite
  | done, other => other
  | call type field offset rest, other => call type field offset (rest.append other)
  | loop loopVar length body rest, other => loop loopVar length body (rest.append other)

end Suite

/-- `toNetwork` and `toHost` of all members, which only differ in the function that
is called: the statements, and the number of the last loop variable. -/
def Members.emit : Members → Offset → Path Word → Nat → Suite × Nat
  | .nil, _, _, counter => (.done, counter)
  | .element type name none rest, offset, parent, counter =>
    let (suite, last) := rest.emit (offset ++ [.literal type.size]) parent counter
    (.call type (parent ++ [(name, none)]) offset suite, last)
  | .element type name (some length) rest, offset, parent, counter =>
    let body := .call type (parent ++ [(name, some (counter + 1))])
      (offset ++ [.index (counter + 1) type.size]) .done
    let (suite, last) := rest.emit (offset ++ [.literal (type.size * length.value)]) parent
      (counter + 1)
    (.loop (counter + 1) length.value body suite, last)
  | .struct _ members name none rest, offset, parent, counter =>
    let (body, inner) := members.emit offset (parent ++ [(name, none)]) counter
    let (suite, last) := rest.emit (offset ++ [.literal members.size]) parent inner
    (body.append suite, last)
  | .struct _ members name (some length) rest, offset, parent, counter =>
    let (body, inner) := members.emit (offset ++ [.index (counter + 1) members.size])
      (parent ++ [(name, some (counter + 1))]) (counter + 1)
    let (suite, last) := rest.emit (offset ++ [.literal (members.size * length.value)]) parent
      inner
    (.loop (counter + 1) length.value body suite, last)

/-- `create_Serialize`, after a number of loop variables: what follows the call of
the parent class. -/
def Declaration.createSerialize (declaration : Declaration) (counter : Nat) : Suite :=
  (declaration.members.emit [.literal declaration.kind.parentSize] [] counter).1

/-- `create_Deserialize`, likewise. -/
def Declaration.createDeserialize (declaration : Declaration) (counter : Nat) : Suite :=
  (declaration.members.emit [.literal declaration.kind.parentSize] [] counter).1

/-- What a summand is worth where the loop variables have the given values. -/
def Term.value (indices : Nat → Nat) : Term → Nat
  | .literal value => value
  | .index loopVar size => indices loopVar * size

/-- The offset where the loop variables have the given values. -/
def Offset.value (indices : Nat → Nat) (offset : Offset) : Nat :=
  (offset.map (Term.value indices)).sum

/-- The field where the loop variables have the given values. -/
def locate (indices : Nat → Nat) (field : Path Word) : Path Word :=
  field.map fun step => (step.1, step.2.map indices)

/-- The calls that running the statements makes, in order. -/
def Suite.calls (indices : Nat → Nat) : Suite → List (Place Word Primitive)
  | .done => []
  | .call type field offset rest =>
    ⟨locate indices field, type, offset.value indices⟩ :: rest.calls indices
  | .loop loopVar length body rest =>
    ((List.range length).flatMap fun element =>
      body.calls (Function.update indices loopVar element)) ++ rest.calls indices

section Emitting

/-- No loop variable of an offset or of a path is beyond the last one. -/
def Below (counter : Nat) (offset : Offset) (field : Path Word) : Prop :=
  (∀ loopVar size, Term.index loopVar size ∈ offset → loopVar ≤ counter) ∧
    ∀ name loopVar, (name, some loopVar) ∈ field → loopVar ≤ counter

variable {counter : Nat} {offset : Offset} {field : Path Word}

theorem Below.mono {other : Nat} (below : Below counter offset field) (le : counter ≤ other) :
    Below other offset field :=
  ⟨fun loopVar size member => (below.1 loopVar size member).trans le,
    fun name loopVar member => (below.2 name loopVar member).trans le⟩

section

variable (below : Below counter offset field)
include below

theorem Below.literal (size : Nat) :
    Below counter (offset ++ [.literal size]) field := by
  refine ⟨?_, below.2⟩
  intro loopVar other member
  simp only [mem_append, mem_singleton, reduceCtorEq, or_false] at member
  exact below.1 loopVar other member

theorem Below.name (name : Word) :
    Below counter offset (field ++ [(name, none)]) := by
  refine ⟨below.1, ?_⟩
  intro other loopVar member
  simp only [mem_append, mem_singleton, Prod.mk.injEq, reduceCtorEq, and_false,
    or_false] at member
  exact below.2 other loopVar member

theorem Below.index (name : Word) (size : Nat) :
    Below (counter + 1) (offset ++ [.index (counter + 1) size])
      (field ++ [(name, some (counter + 1))]) := by
  constructor
  · intro loopVar other member
    simp only [mem_append, mem_singleton, Term.index.injEq] at member
    rcases member with earlier | ⟨rfl, _⟩
    · exact (below.1 loopVar other earlier).trans (Nat.le_succ counter)
    · exact Nat.le_refl _
  · intro other loopVar member
    simp only [mem_append, mem_singleton, Prod.mk.injEq, Option.some.injEq] at member
    rcases member with earlier | ⟨_, rfl⟩
    · exact (below.2 other loopVar earlier).trans (Nat.le_succ counter)
    · exact Nat.le_refl _

theorem Below.value_update (indices : Nat → Nat)
    (element : Nat) :
    offset.value (Function.update indices (counter + 1) element) = offset.value indices := by
  apply congrArg List.sum
  apply map_congr_left
  intro term member
  cases term with
  | literal value => rfl
  | index loopVar size =>
    have small := below.1 loopVar size member
    simp only [Term.value]
    rw [Function.update_of_ne (by omega)]

theorem Below.locate_update (indices : Nat → Nat)
    (element : Nat) :
    locate (Function.update indices (counter + 1) element) field = locate indices field := by
  apply map_congr_left
  intro step member
  obtain ⟨name, index⟩ := step
  cases index with
  | none => rfl
  | some loopVar =>
    have small := below.2 name loopVar member
    simp only [Option.map_some]
    rw [Function.update_of_ne (by omega)]

end

@[simp] theorem value_append (indices : Nat → Nat) (first second : Offset) :
    Offset.value indices (first ++ second) = first.value indices + second.value indices := by
  simp [Offset.value]

@[simp] theorem locate_append (indices : Nat → Nat) (first second : Path Word) :
    locate indices (first ++ second) = locate indices first ++ locate indices second := by
  simp [locate]

theorem calls_append (indices : Nat → Nat) (first second : Suite) :
    (first.append second).calls indices = first.calls indices ++ second.calls indices := by
  induction first with
  | done => rfl
  | call type field offset rest ih =>
    simp [Suite.append, Suite.calls, ih]
  | loop loopVar length body rest bodyHypothesis restHypothesis =>
    simp [Suite.append, Suite.calls, restHypothesis]

theorem copies_length (length : Length) : copies length.value = length.value :=
  if_neg length.positive.ne'

theorem index_length (length : Length) (element : Nat) :
    index length.value element = some element :=
  if_neg length.positive.ne'

theorem emit_counter (members : Members) (offset : Offset) (parent : Path Word) (counter : Nat) :
    counter ≤ (members.emit offset parent counter).2 := by
  induction members generalizing offset parent counter with
  | nil => exact Nat.le_refl _
  | element type name length rest ih =>
    cases length with
    | none => exact ih _ _ _
    | some length => exact (Nat.le_succ counter).trans (ih _ _ _)
  | struct type body name length rest bodyHypothesis restHypothesis =>
    cases length with
    | none => exact (bodyHypothesis _ _ _).trans (restHypothesis _ _ _)
    | some length =>
      exact (Nat.le_succ counter).trans ((bodyHypothesis _ _ _).trans (restHypothesis _ _ _))

/-- Running what is emitted makes one call for each leaf, in order and at its place. -/
theorem calls_emit (members : Members) (offset : Offset) (parent : Path Word) (counter : Nat)
    (indices : Nat → Nat) (below : Below counter offset parent) :
    (members.emit offset parent counter).1.calls indices =
      members.layout.places Primitive.size (locate indices parent) (offset.value indices) := by
  induction members generalizing offset parent counter indices with
  | nil => rfl
  | element type name length rest ih =>
    cases length with
    | none =>
      simp only [Members.emit, Suite.calls, Members.layout, Layout.places, count]
      rw [ih _ _ _ _ (below.literal _)]
      simp [copies, index, locate, Offset.value, Term.value]
    | some length =>
      simp only [Members.emit, Suite.calls, Members.layout, Layout.places, count]
      rw [ih _ _ _ _ ((below.mono (Nat.le_succ counter)).literal _),
        copies_length]
      congr 1
      · rw [map_eq_flatMap]
        apply flatMap_congr
        intro element _
        simp only [value_append, locate_append, below.value_update, below.locate_update,
          index_length]
        simp [locate, Offset.value, Term.value]
      · simp [Offset.value, Term.value, Nat.mul_comm]
  | struct type body name length rest bodyHypothesis restHypothesis =>
    cases length with
    | none =>
      have later := emit_counter body offset (parent ++ [(name, none)]) counter
      simp only [Members.emit, calls_append, Members.layout, Layout.places, count]
      rw [restHypothesis _ _ _ _ ((below.mono later).literal _),
        bodyHypothesis _ _ _ _ (below.name name)]
      simp [copies, index, locate, Offset.value, Term.value, Members.size_layout]
    | some length =>
      have later := emit_counter body (offset ++ [.index (counter + 1) body.size])
        (parent ++ [(name, some (counter + 1))]) (counter + 1)
      simp only [Members.emit, Suite.calls, Members.layout, Layout.places, count]
      rw [restHypothesis _ _ _ _ ((below.mono ((Nat.le_succ counter).trans later)).literal _),
        copies_length]
      congr 1
      · apply flatMap_congr
        intro element _
        rw [bodyHypothesis _ _ _ _ (below.index name _)]
        simp only [value_append, locate_append, below.value_update, below.locate_update,
          index_length, Members.size_layout]
        simp [locate, Offset.value, Term.value]
      · simp [Offset.value, Term.value, Nat.mul_comm, Members.size_layout]

end Emitting

end Miranda.QCompiler
