import Mathlib.Data.List.Infix
import Miranda.QCompiler.Declarations

/-!
# Evaluating `.q` files

The statements of a `.q` file are evaluated in order. A package statement says
where the following declarations go, an import evaluates another file on the same
global namespace, and a struct or message statement registers its name and then
looks up the types of its members. A type name is looked up in the package of the
declaration and then in the enclosing ones.

Everything that makes the compiler give up is `none`: a missing or repeated
package, a name that is taken, two members of one name, one of the types listed
as common mistakes, a `char` that is no array and a type that is not found. So is
a type that is found and is not a finished struct. A namespace, a message or the
declaration itself has no codec to unfold, and the compiler fails or recurses for
ever when it generates the code of the member.

Tokens are not modelled: a statement holds words and lengths. Queue, queue group
and interface statements make no structs and are left out; a message inside a
queue group differs from one beside it only in its full name.
-/

namespace Miranda.QCompiler

/-- `QualifiedName`. -/
structure QualifiedName where
  names : List Word
  offRoot : Bool
  named : names ≠ []
  deriving DecidableEq

/-- `QualifiedName#to_s`. -/
def QualifiedName.toS (name : QualifiedName) : List Char :=
  if name.offRoot then getName name.names else (getName name.names).tail

/-- `MessageElementStmt`. -/
structure MessageElementStmt where
  typeName : QualifiedName
  name : Word
  length : Option Length
  deriving DecidableEq

/-- The statements in the order of their evaluation. The statements of an imported
file stand between `importFile` and `importEnd`. -/
inductive Stmt where
  | package (name : QualifiedName)
  | importFile
  | importEnd
  | struct (name : Word) (suite : List MessageElementStmt)
  | message (name : Word) (suite : List MessageElementStmt)
  deriving DecidableEq

/-- What a full name stands for in the global namespace. -/
inductive Entry where
  | space
  | unfinished
  | message
  | struct (members : Members)
  deriving DecidableEq

abbrev Entries := List (FullName × Entry)

/-- What a full name stands for, if anything. -/
def Entries.find (entries : Entries) (name : FullName) : Option Entry :=
  (entries.find? fun entry => entry.1 == name).map Prod.snd

/-- `QualifiedName#lookup` from a package outwards; off the root only there. -/
def QualifiedName.lookup (name : QualifiedName) (entries : Entries) (package : FullName) :
    Option (FullName × Entry) :=
  (if name.offRoot then [[]] else package.inits.reverse).findSome? fun space =>
    (entries.find (space ++ name.names)).map fun entry => (space ++ name.names, entry)

/-- The type as the element statement notes it. -/
def MessageElementStmt.type (stmt : MessageElementStmt) : List Char :=
  if stmt.typeName.toS = "Time".toList then "::aos::time::Time".toList else stmt.typeName.toS

/-- The types of `Sizes` by their text. -/
def sizes (text : List Char) : Option Primitive :=
  (Primitive.all.erase .char).find? fun type => type.text == text

/-- The texts of `CommonMistakes`. -/
def commonMistakes : List (List Char) :=
  ["short".toList, "int".toList, "long".toList, "time".toList]

local instance text_lawfulBEq : LawfulBEq (List Char) := inferInstance

/-- `check_type_error` and the lookup of struct types: a primitive type, or the
full name and the members of a struct. -/
def MessageElementStmt.resolve (stmt : MessageElementStmt) (entries : Entries)
    (package : FullName) : Option (Primitive ⊕ (FullName × Members)) :=
  match sizes stmt.type with
  | some type => some (.inl type)
  | none =>
    if stmt.type = "char".toList then
      if stmt.length.isSome then some (.inl .char) else none
    else if stmt.type ∈ commonMistakes then none
    else
      match stmt.typeName.lookup entries package with
      | some (name, .struct members) => some (.inr (name, members))
      | _ => none

/-- `MessageElementStmt#q_eval` for the elements of a declaration. -/
def evalSuite (entries : Entries) (package : FullName) : List MessageElementStmt → Option Members
  | [] => some .nil
  | stmt :: rest =>
    match stmt.resolve entries package, evalSuite entries package rest with
    | some (.inl type), some members => some (.element type stmt.name stmt.length members)
    | some (.inr (name, body)), some members =>
      some (.struct name body stmt.name stmt.length members)
    | _, _ => none

/-- The namespace, the packages of the files that are being evaluated with the
innermost first, and the declarations so far. -/
structure Globals where
  entries : Entries
  packages : List (Option FullName)
  declarations : List Declaration

/-- `NameSpace#get_make`, which fails later where the name is no namespace. -/
def getMake (entries : Entries) (name : FullName) : Option Entries :=
  match entries.find name with
  | none => some (entries ++ [(name, .space)])
  | some .space => some entries
  | some _ => none

/-- What stands in the namespace while the members are evaluated. -/
def Kind.registered : Kind → Entry
  | .message => .message
  | .struct => .unfinished

/-- What stands in the namespace after that. -/
def Kind.finished (members : Members) : Kind → Entry
  | .message => .message
  | .struct => .struct members

/-- Evaluate a struct or message statement: refuse repeated member names, register
the name, evaluate the members and keep the declaration. -/
def declare (kind : Kind) (name : Word) (suite : List MessageElementStmt) (globals : Globals) :
    Option Globals :=
  match globals.packages with
  | some package :: _ =>
    if (suite.map MessageElementStmt.name).Nodup then
      match globals.entries.find (package ++ [name]) with
      | some _ => none
      | none =>
        (evalSuite (globals.entries ++ [(package ++ [name], kind.registered)]) package suite).map
          fun members => { globals with
            entries := globals.entries ++ [(package ++ [name], kind.finished members)]
            declarations := globals.declarations ++ [⟨kind, package ++ [name], members⟩] }
    else none
  | _ => none

/-- `q_eval` of a statement. -/
def Stmt.qEval (globals : Globals) : Stmt → Option Globals
  | .package name =>
    match globals.packages with
    | none :: outer =>
      (name.names.inits.tail.foldlM getMake globals.entries).map fun entries =>
        { globals with entries := entries, packages := some name.names :: outer }
    | _ => none
  | .importFile => some { globals with packages := none :: globals.packages }
  | .importEnd =>
    match globals.packages with
    | _ :: outer :: others => some { globals with packages := outer :: others }
    | _ => none
  | .struct name suite => declare .struct name suite globals
  | .message name suite => declare .message name suite globals

/-- `Globals#initialize`: only the namespace `aos` is there. -/
def Globals.new : Globals where
  entries := [([⟨"aos".toList, by decide⟩], .space)]
  packages := [none]
  declarations := []

/-- Evaluate all statements of a file and of what it imports. -/
def compile (source : List Stmt) : Option Globals := source.foldlM Stmt.qEval Globals.new

/-- A declaration of some file that the compiler accepts. -/
def Accepted (declaration : Declaration) : Prop :=
  ∃ source globals, compile source = some globals ∧ declaration ∈ globals.declarations

/-- What a declaration needs and what it leaves behind. -/
theorem declare_eq_some_iff {kind : Kind} {name : Word} {suite : List MessageElementStmt}
    {globals next : Globals} :
    declare kind name suite globals = some next ↔
      ∃ package outer members, globals.packages = some package :: outer ∧
        (suite.map MessageElementStmt.name).Nodup ∧
        globals.entries.find (package ++ [name]) = none ∧
        evalSuite (globals.entries ++ [(package ++ [name], kind.registered)]) package suite =
          some members ∧
        next = { globals with
          entries := globals.entries ++ [(package ++ [name], kind.finished members)]
          declarations := globals.declarations ++ [⟨kind, package ++ [name], members⟩] } := by
  constructor
  · intro declared
    simp only [declare] at declared
    split at declared
    · rename_i package outer packages
      split at declared
      · rename_i distinct
        split at declared
        · cases declared
        · rename_i free
          obtain ⟨members, evaluated, rfl⟩ := Option.map_eq_some_iff.mp declared
          exact ⟨package, outer, members, packages, distinct, free, evaluated, rfl⟩
      · cases declared
    · cases declared
  · rintro ⟨package, outer, members, packages, distinct, free, evaluated, rfl⟩
    simp only [declare, packages, if_pos distinct, free, evaluated, Option.map_some]

end Miranda.QCompiler
