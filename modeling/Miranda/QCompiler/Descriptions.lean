import Mathlib.Data.List.Basic
import Miranda.QueueTypes.Printing

/-!
# The types a program announces

`DoGetType` of a generated class first asks the classes of its struct members for
their types and then adds its own description to the type cache of the process. The
description lists the members with their type ids, array lengths and names. The cache
keeps the first type that is added for an id.

Struct types are found by their ids only. So what the printer sees of a member is the
description of the first type that was added with the id of the member's type, and the
codec agrees with the descriptions exactly if that type always is a struct with the
same layout. Type ids are digests of texts that do not show the names of arrays, so
two structs of one program can have the same id without having the same layout.
-/

namespace Miranda.QCompiler

open Bytes Layouts QueueTypes List

/-- The bytes of a text in ASCII. -/
def bytes (text : List Char) : List UInt8 := text.map fun char => UInt8.ofNat char.toNat

def Word.bytes (word : Word) : List UInt8 := QCompiler.bytes word.text

theorem toNat_lt_of_isWordChar {char : Char} (word : isWordChar char = true) :
    char.toNat < 256 := by
  have code : char.toNat = char.val.toNat := rfl
  have spelled : (((decide (char.val ≥ 'A'.val ∧ char.val ≤ 'Z'.val) ||
      (decide (char.val ≥ 'a'.val) && decide (char.val ≤ 'z'.val))) ||
      (decide (char.val ≥ '0'.val) && decide (char.val ≤ '9'.val))) || char == '_') = true := word
  simp only [Bool.or_eq_true, Bool.and_eq_true, decide_eq_true_eq, beq_iff_eq,
    UInt32.le_iff_toNat_le] at spelled
  rcases spelled with ((upper | lower) | digit) | underscore
  · have bound : char.val.toNat ≤ 90 := upper.2
    omega
  · have bound : char.val.toNat ≤ 122 := lower.2
    omega
  · have bound : char.val.toNat ≤ 57 := digit.2
    omega
  · rw [underscore]
    decide

theorem Word.bytes_injective : Function.Injective Word.bytes := by
  have general : ∀ first second : List Char, (∀ char ∈ first, char.toNat < 256) →
      (∀ char ∈ second, char.toNat < 256) →
      QCompiler.bytes first = QCompiler.bytes second → first = second := by
    intro first
    induction first with
    | nil =>
      intro second _ _ same
      cases second with
      | nil => rfl
      | cons char rest => simp [QCompiler.bytes] at same
    | cons char rest ih =>
      intro second small smaller same
      cases second with
      | nil => simp [QCompiler.bytes] at same
      | cons other others =>
        simp only [QCompiler.bytes, map_cons, cons.injEq] at same
        have numbers := congrArg UInt8.toNat same.1
        rw [UInt8.toNat_ofNat', UInt8.toNat_ofNat', Nat.mod_eq_of_lt (small char mem_cons_self),
          Nat.mod_eq_of_lt (smaller other mem_cons_self)] at numbers
        have chars : char = other := Char.ext (UInt32.toNat_inj.mp numbers)
        rw [chars, ih others
          (fun char member => small char (mem_cons_of_mem _ member))
          (fun char member => smaller char (mem_cons_of_mem _ member)) same.2]
  intro first second same
  apply Word.ext
  exact general _ _ (fun _ member => toNat_lt_of_isWordChar (first.isWordChar_of_mem member))
    (fun _ member => toNat_lt_of_isWordChar (second.isWordChar_of_mem member)) same

section Describing

variable (digest : List Char → BitVec 16)

/-- The id of a primitive type in a description. -/
def Primitive.typeId (type : Primitive) : TypeId := BitVec.ofNat 32 (type.getTypeID digest)

/-- The id of a struct type in a description. -/
def Members.typeId (members : Members) : TypeId := BitVec.ofNat 32 (members.getTypeID digest)

/-- The fields that `create_DoGetType` emits. -/
def Members.fields : Members → List Field
  | .nil => []
  | .element type name length rest =>
    ⟨type.typeId digest, BitVec.ofNat 32 (count length), name.bytes⟩ :: rest.fields
  | .struct _ body name length rest =>
    ⟨body.typeId digest, BitVec.ofNat 32 (count length), name.bytes⟩ :: rest.fields

/-- The `kMsgMessageType` of `DoGetType`. The number of fields is cut to sixteen bits,
and the fields behind that number are never read. -/
def Declaration.messageType (declaration : Declaration) : MessageType where
  superSize := BitVec.ofNat 16 declaration.kind.parentSize
  id := declaration.members.typeId digest
  name := bytes (getName declaration.name)
  fields := (declaration.members.fields digest).take
    ((declaration.members.fields digest).length % 2 ^ 16)
  fieldsCounted := by
    rw [List.length_take]
    have remainder := Nat.mod_lt (declaration.members.fields digest).length (Nat.two_pow_pos 16)
    omega

/-- `type_cache::Add`. -/
def addType (types : List MessageType) (type : MessageType) : List MessageType :=
  if types.any fun other => other.id == type.id then types else types ++ [type]

end Describing

/-- The struct types of the members themselves. -/
def Members.structs : Members → List Declaration
  | .nil => []
  | .element _ _ _ rest => rest.structs
  | .struct type body _ _ rest => ⟨.struct, type, body⟩ :: rest.structs

/-- The declarations whose types are added when the members' types are asked for, in
order. `DoGetType` leaves out repeated calls for one type, which find it added. -/
def Members.requests : Members → List Declaration
  | .nil => []
  | .element _ _ _ rest => rest.requests
  | .struct type body _ _ rest => body.requests ++ ⟨.struct, type, body⟩ :: rest.requests

/-- The declarations whose types a program has added after it has asked for the types
of some of them, in order. -/
def requests (program : List Declaration) : List Declaration :=
  program.flatMap fun declaration => declaration.members.requests ++ [declaration]

/-- `type_cache::Get` after that. -/
def getType (digest : List Char → BitVec 16) (program : List Declaration) (typeId : TypeId) :
    Option MessageType :=
  (((requests program).map (Declaration.messageType digest)).foldl addType []).find?
    fun type => type.id == typeId

theorem find_addType (types more : List MessageType) (typeId : TypeId) :
    (more.foldl addType types).find? (fun type => type.id == typeId) =
      (types ++ more).find? fun type => type.id == typeId := by
  induction more generalizing types with
  | nil => simp
  | cons type rest ih =>
    rw [foldl_cons, ih, addType]
    split
    · rename_i present
      obtain ⟨other, member, same⟩ := any_eq_true.mp present
      rw [find?_append, find?_append]
      cases found : types.find? _ with
      | some first => rfl
      | none =>
        have different : (type.id == typeId) = false := by
          have absent := find?_eq_none.mp found other member
          rw [beq_iff_eq.mp same] at absent
          simpa using absent
        simp [different]
    · simp

/-- The first type with an id is the one that is found. -/
theorem getType_eq (digest : List Char → BitVec 16) (program : List Declaration)
    (typeId : TypeId) :
    getType digest program typeId =
      ((requests program).find? fun declaration =>
        declaration.members.typeId digest == typeId).map (Declaration.messageType digest) := by
  rw [getType, find_addType, nil_append, find?_map]
  rfl

/-- Every declaration comes after the structs of its members. -/
inductive Grounded : List Declaration → Prop where
  | nil : Grounded []
  | snoc {before : List Declaration} {declaration : Declaration} (earlier : Grounded before)
      (known : ∀ struct ∈ declaration.members.structs, struct ∈ before) :
      Grounded (before ++ [declaration])

theorem mem_requests_of_structs {members : Members} {struct : Declaration}
    (member : struct ∈ members.structs) : struct ∈ members.requests := by
  induction members with
  | nil => simp [Members.structs] at member
  | element type name length rest ih => exact ih member
  | struct type body name length rest bodyHypothesis restHypothesis =>
    simp only [Members.requests, mem_append, mem_cons]
    cases member with
    | head => exact .inr (.inl rfl)
    | tail _ member => exact .inr (.inr (restHypothesis member))

theorem Grounded.members {before : List Declaration} (earlier : Grounded before)
    (members : Members) : Grounded (before ++ members.requests) := by
  induction members generalizing before with
  | nil => simpa [Members.requests] using earlier
  | element type name length rest ih => exact ih earlier
  | struct type body name length rest bodyHypothesis restHypothesis =>
    have inner := bodyHypothesis earlier
    have itself : Grounded (before ++ body.requests ++ [⟨.struct, type, body⟩]) := by
      apply inner.snoc
      intro struct member
      exact mem_append_right _ (mem_requests_of_structs member)
    simpa [Members.requests] using restHypothesis itself

theorem grounded_requests (program : List Declaration) : Grounded (requests program) := by
  have general : ∀ before : List Declaration, Grounded before →
      Grounded (before ++ requests program) := by
    induction program with
    | nil => simp [requests]
    | cons declaration rest ih =>
      intro before earlier
      have itself : Grounded (before ++ declaration.members.requests ++ [declaration]) := by
        apply (earlier.members _).snoc
        intro struct member
        exact mem_append_right _ (mem_requests_of_structs member)
      simpa [requests] using ih _ itself
  exact general [] .nil

/-- Induction along the types that are found for the structs of the members. -/
theorem requests_induction {digest : List Char → BitVec 16} {program : List Declaration}
    {motive : Declaration → Prop}
    (step : ∀ declaration ∈ requests program,
      (∀ struct ∈ declaration.members.structs, ∀ found,
        (requests program).find? (fun other =>
          other.members.typeId digest == struct.members.typeId digest) = some found →
        motive found) → motive declaration) :
    ∀ declaration ∈ requests program, motive declaration := by
  have general : ∀ before, Grounded before → ∀ after, requests program = before ++ after →
      ∀ declaration ∈ before, motive declaration := by
    intro before grounded
    induction grounded with
    | nil => simp
    | @snoc before declaration earlier known ih =>
      intro after split other member
      have previous := ih _ (by simpa using split)
      rcases mem_append.mp member with old | new
      · exact previous other old
      · rw [mem_singleton.mp new]
        apply step declaration (by simp [split])
        intro struct inside found first
        apply previous
        have present : (before.find? fun other =>
            other.members.typeId digest == struct.members.typeId digest).isSome :=
          find?_isSome.mpr ⟨struct, known struct inside, beq_self_eq_true _⟩
        obtain ⟨shown, located⟩ := Option.isSome_iff_exists.mp present
        rw [split, append_assoc, find?_append, located] at first
        cases first
        exact mem_of_find?_eq_some located
  exact general _ (grounded_requests program) [] (by simp)

end Miranda.QCompiler
