import Mathlib.Algebra.Order.BigOperators.Group.List
import Mathlib.Algebra.Order.Group.Nat
import Miranda.QCompiler.Evaluation
import Miranda.QCompiler.SimpleStr

/-!
# Declarations that their texts do not tell apart

Renaming the array members of a file, all in the same way, goes through the
evaluation: the renamed file declares what the file declares with the arrays
renamed. The text of a declaration does not show the names of arrays, so it is the
same for both.
-/

namespace Miranda.QCompiler

open Layouts List

/-- Other names for the array members, at every depth. -/
def Members.renameArrays (naming : Word → Word) : Members → Members
  | .nil => .nil
  | .element type name length rest =>
    .element type (if length.isSome then naming name else name) length
      (rest.renameArrays naming)
  | .struct type body name length rest =>
    .struct type (body.renameArrays naming) (if length.isSome then naming name else name) length
      (rest.renameArrays naming)

theorem Members.skeleton_renameArrays (naming : Word → Word) (members : Members) :
    (members.renameArrays naming).skeleton = members.skeleton := by
  induction members with
  | nil => rfl
  | element type name length rest ih =>
    cases length <;> simp [renameArrays, skeleton, ih]
  | struct type body name length rest bodyHypothesis restHypothesis =>
    cases length <;> simp [renameArrays, skeleton, bodyHypothesis, restHypothesis]

/-- Renaming shows in the layout as soon as there is an array. -/
theorem Members.arrayFree_of_layout_renameArrays {naming : Word → Word}
    (different : ∀ word, naming word ≠ word) (members : Members)
    (same : (members.renameArrays naming).layout = members.layout) :
    members.arrayFree = true := by
  induction members with
  | nil => rfl
  | element type name length rest ih =>
    simp only [renameArrays, layout, Layout.leaf.injEq, true_and] at same
    cases length with
    | none => exact ih same.2
    | some length => exact (different name same.1).elim
  | struct type body name length rest bodyHypothesis restHypothesis =>
    simp only [renameArrays, layout, Layout.group.injEq, true_and] at same
    cases length with
    | none => simp [arrayFree, bodyHypothesis same.2.1, restHypothesis same.2.2]
    | some length => exact (different name same.1).elim

section Evaluating

variable (naming : Word → Word)

def MessageElementStmt.renameArrays (stmt : MessageElementStmt) : MessageElementStmt :=
  { stmt with name := if stmt.length.isSome then naming stmt.name else stmt.name }

def Stmt.renameArrays : Stmt → Stmt
  | .package name => .package name
  | .importFile => .importFile
  | .importEnd => .importEnd
  | .struct name suite => .struct name (suite.map (MessageElementStmt.renameArrays naming))
  | .message name suite => .message name (suite.map (MessageElementStmt.renameArrays naming))

def Entry.renameArrays : Entry → Entry
  | .struct members => .struct (members.renameArrays naming)
  | other => other

def Entries.renameArrays (entries : Entries) : Entries :=
  entries.map fun entry => (entry.1, entry.2.renameArrays naming)

def Declaration.renameArrays (declaration : Declaration) : Declaration :=
  { declaration with members := declaration.members.renameArrays naming }

def Globals.renameArrays (globals : Globals) : Globals where
  entries := globals.entries.renameArrays naming
  packages := globals.packages
  declarations := globals.declarations.map (Declaration.renameArrays naming)

theorem find_renameArrays (entries : Entries) (name : FullName) :
    (entries.renameArrays naming).find name =
      (entries.find name).map (Entry.renameArrays naming) := by
  simp [Entries.find, Entries.renameArrays, find?_map, Function.comp_def]

theorem lookup_renameArrays (name : QualifiedName) (entries : Entries) (package : FullName) :
    name.lookup (entries.renameArrays naming) package =
      (name.lookup entries package).map (Prod.map id (Entry.renameArrays naming)) := by
  simp [QualifiedName.lookup, find_renameArrays, map_findSome?, Function.comp_def]

theorem resolve_renameArrays (stmt : MessageElementStmt) (entries : Entries)
    (package : FullName) :
    (stmt.renameArrays naming).resolve (entries.renameArrays naming) package =
      (stmt.resolve entries package).map
        (Sum.map id (Prod.map id (Members.renameArrays naming))) := by
  have sameType : (stmt.renameArrays naming).type = stmt.type := rfl
  have sameName : (stmt.renameArrays naming).typeName = stmt.typeName := rfl
  have sameLength : (stmt.renameArrays naming).length = stmt.length := rfl
  simp only [MessageElementStmt.resolve, sameType, sameName, sameLength, lookup_renameArrays]
  cases sizes _ with
  | some type => rfl
  | none =>
    by_cases isChar : stmt.type = "char".toList
    · rw [if_pos isChar, if_pos isChar]
      cases stmt.length <;> rfl
    · rw [if_neg isChar, if_neg isChar]
      by_cases mistake : stmt.type ∈ commonMistakes
      · rw [if_pos mistake, if_pos mistake]
        rfl
      · rw [if_neg mistake, if_neg mistake]
        cases stmt.typeName.lookup entries package with
        | none => rfl
        | some found =>
          obtain ⟨name, entry⟩ := found
          cases entry <;> rfl

theorem evalSuite_renameArrays (entries : Entries) (package : FullName)
    (suite : List MessageElementStmt) :
    evalSuite (entries.renameArrays naming) package
        (suite.map (MessageElementStmt.renameArrays naming)) =
      (evalSuite entries package suite).map (Members.renameArrays naming) := by
  induction suite with
  | nil => rfl
  | cons stmt rest ih =>
    simp only [map_cons, evalSuite, resolve_renameArrays, ih]
    cases stmt.resolve entries package with
    | none => rfl
    | some resolved =>
      cases evalSuite entries package rest with
      | none => cases resolved <;> rfl
      | some members => cases resolved <;> rfl

theorem getMake_renameArrays (entries : Entries) (name : FullName) :
    getMake (entries.renameArrays naming) name =
      (getMake entries name).map (Entries.renameArrays naming) := by
  simp only [getMake, find_renameArrays]
  cases entries.find name with
  | none => simp [Entries.renameArrays, Entry.renameArrays]
  | some entry => cases entry <;> rfl

theorem foldlM_getMake_renameArrays (names : List FullName) (entries : Entries) :
    names.foldlM getMake (entries.renameArrays naming) =
      (names.foldlM getMake entries).map (Entries.renameArrays naming) := by
  induction names generalizing entries with
  | nil => rfl
  | cons name rest ih =>
    simp only [foldlM_cons, getMake_renameArrays]
    cases getMake entries name with
    | none => rfl
    | some made => exact ih made

/-- The renamed members of a declaration have distinct names if the members have. -/
def KeepsApart (suite : List MessageElementStmt) : Prop :=
  (suite.map MessageElementStmt.name).Nodup →
    ((suite.map (MessageElementStmt.renameArrays naming)).map MessageElementStmt.name).Nodup

variable {naming}

variable {globals next : Globals} {source : List Stmt}

theorem declare_renameArrays {kind : Kind} {name : Word} {suite : List MessageElementStmt}
    (apart : KeepsApart naming suite) (declared : declare kind name suite globals = some next) :
    declare kind name (suite.map (MessageElementStmt.renameArrays naming))
      (globals.renameArrays naming) = some (next.renameArrays naming) := by
  obtain ⟨package, outer, members, packages, distinct, free, evaluated, rfl⟩ :=
    declare_eq_some_iff.mp declared
  apply declare_eq_some_iff.mpr
  refine ⟨package, outer, members.renameArrays naming, packages, apart distinct, ?_, ?_, ?_⟩
  · change (globals.entries.renameArrays naming).find _ = none
    rw [find_renameArrays, free]
    rfl
  · have registered : (globals.renameArrays naming).entries ++
        [(package ++ [name], kind.registered)] =
        .renameArrays naming (globals.entries ++ [(package ++ [name], kind.registered)]) := by
      cases kind <;> simp [Globals.renameArrays, Entries.renameArrays, Entry.renameArrays,
        Kind.registered]
    rw [registered, evalSuite_renameArrays, evaluated]
    rfl
  · cases kind <;> simp [Globals.renameArrays, Entries.renameArrays, Entry.renameArrays,
      Kind.finished, Declaration.renameArrays]

/-- The element statements of a declaration statement. -/
def Stmt.suite : Stmt → List MessageElementStmt
  | .struct _ suite | .message _ suite => suite
  | _ => []

theorem qEval_renameArrays {stmt : Stmt} (apart : KeepsApart naming stmt.suite)
    (evaluated : stmt.qEval globals = some next) :
    (stmt.renameArrays naming).qEval (globals.renameArrays naming) =
      some (next.renameArrays naming) := by
  cases stmt with
  | package name =>
    simp only [Stmt.qEval] at evaluated
    split at evaluated
    · rename_i outer packages
      obtain ⟨entries, made, rfl⟩ := Option.map_eq_some_iff.mp evaluated
      have same : (globals.renameArrays naming).packages = none :: outer := packages
      simp only [Stmt.renameArrays, Stmt.qEval, same]
      change Option.map _ (List.foldlM getMake (globals.entries.renameArrays naming) _) = _
      rw [foldlM_getMake_renameArrays, made]
      rfl
    · cases evaluated
  | importFile =>
    cases evaluated
    rfl
  | importEnd =>
    simp only [Stmt.qEval] at evaluated
    split at evaluated
    · rename_i inner outer others packages
      cases evaluated
      have same : (globals.renameArrays naming).packages = inner :: outer :: others := packages
      simp only [Stmt.renameArrays, Stmt.qEval, same]
      rfl
    · cases evaluated
  | struct name suite | message name suite => exact declare_renameArrays apart evaluated

theorem foldlM_qEval_renameArrays (apart : ∀ stmt ∈ source, KeepsApart naming stmt.suite)
    (evaluated : source.foldlM Stmt.qEval globals = some next) :
    (source.map (Stmt.renameArrays naming)).foldlM Stmt.qEval (globals.renameArrays naming) =
      some (next.renameArrays naming) := by
  induction source generalizing globals with
  | nil =>
    cases evaluated
    rfl
  | cons stmt rest ih =>
    obtain ⟨middle, first, others⟩ := Option.bind_eq_some_iff.mp evaluated
    have renamed := qEval_renameArrays (apart stmt mem_cons_self) first
    rw [map_cons, foldlM_cons, renamed]
    exact ih (fun other member => apart other (mem_cons_of_mem _ member))
      others

/-- The renamed file declares the renamed declarations. -/
theorem compile_renameArrays (apart : ∀ stmt ∈ source, KeepsApart naming stmt.suite)
    (compiled : compile source = some globals) :
    compile (source.map (Stmt.renameArrays naming)) = some (globals.renameArrays naming) :=
  foldlM_qEval_renameArrays apart compiled

end Evaluating

theorem isWord_append {text more : List Char} (valid : isWord text = true)
    (word : ∀ char ∈ more, isWordChar char = true) : isWord (text ++ more) = true := by
  cases text with
  | nil => simp [isWord] at valid
  | cons first rest =>
    simp only [isWord, Bool.and_eq_true, all_eq_true] at valid
    simp only [cons_append, isWord, Bool.and_eq_true, all_append, all_eq_true]
    exact ⟨valid.1, valid.2, word⟩

/-- A word with a number of underscores after it. -/
def underline (number : Nat) (word : Word) : Word where
  text := word.text ++ List.replicate number '_'
  valid := isWord_append word.valid fun char member => by
    rw [List.eq_of_mem_replicate member]
    decide

theorem underline_ne {number : Nat} (positive : 0 < number) (word : Word) :
    underline number word ≠ word := by
  intro same
  have lengths := congrArg (fun word => word.text.length) same
  simp [underline] at lengths
  omega

theorem underline_injective (number : Nat) : Function.Injective (underline number) := by
  intro first second same
  exact Word.ext (append_cancel_right (congrArg Word.text same))

/-- More underscores than any name is long keep the names apart. -/
theorem keepsApart_underline {number : Nat} {suite : List MessageElementStmt}
    (long : ∀ stmt ∈ suite, stmt.name.text.length < number) :
    KeepsApart (underline number) suite := by
  have longer : ∀ (word : Word) (stmt : MessageElementStmt), stmt ∈ suite →
      underline number word ≠ stmt.name := by
    intro word stmt member same
    have lengths := congrArg (fun word => word.text.length) same
    have short := long stmt member
    simp [underline] at lengths
    omega
  intro distinct
  rw [map_map, List.Nodup, pairwise_map]
  rw [List.Nodup, pairwise_map] at distinct
  apply Pairwise.imp_of_mem _ distinct
  intro first second firstMember secondMember different
  simp only [Function.comp_apply, MessageElementStmt.renameArrays]
  cases first.length with
  | none =>
    cases second.length with
    | none => exact different
    | some length => exact (longer _ first firstMember).symm
  | some length =>
    cases second.length with
    | none => exact longer _ second secondMember
    | some other => exact fun same => different (underline_injective number same)

/-- For every accepted declaration there is one with the same text whose arrays all
have other names. -/
theorem Accepted.renamed {declaration : Declaration} (accepted : Accepted declaration) :
    ∃ naming : Word → Word, (∀ word, naming word ≠ word) ∧
      Accepted (declaration.renameArrays naming) := by
  obtain ⟨source, globals, compiled, member⟩ := accepted
  let lengths := (source.flatMap Stmt.suite).map fun stmt => stmt.name.text.length
  refine ⟨underline (lengths.sum + 1), underline_ne (by omega), ?_⟩
  refine ⟨_, _, compile_renameArrays ?_ compiled, mem_map_of_mem member⟩
  intro stmt inside
  apply keepsApart_underline
  intro field within
  have bounded : field.name.text.length ∈ lengths :=
    mem_map_of_mem (mem_flatMap.mpr ⟨stmt, inside, within⟩)
  exact Nat.lt_succ_of_le (le_sum_of_mem bounded)

/-- The text of an accepted declaration determines its layout among all accepted
declarations exactly if it has no array, neither itself nor within a struct.

Proof: renamed arrays keep the text and change the layout; without arrays the text has
all of the layout (`simpleStr_eq_iff`). -/
theorem simple_str_determines_layout_iff (declaration : Declaration)
    (accepted : Accepted declaration) :
    (∀ other, Accepted other → other.members.simpleStr = declaration.members.simpleStr →
      other.members.layout = declaration.members.layout) ↔
    declaration.members.arrayFree = true := by
  constructor
  · intro determined
    obtain ⟨naming, different, renamed⟩ := accepted.renamed
    apply Members.arrayFree_of_layout_renameArrays different
    apply determined _ renamed
    apply (Members.simpleStr_eq_iff _ _).mpr
    exact Members.skeleton_renameArrays naming _
  · intro free other _ sameText
    apply Members.layout_eq_of_skeleton _ _ free
    exact ((Members.simpleStr_eq_iff _ _).mp sameText).symm

/-- A type named by one word. -/
def simpleName (name : Word) : QualifiedName := ⟨[name], false, by simp⟩

/-- A file with a package, a struct `Part` of one plain member and a message `Goal`
of one member, which is a `Part` or an array of them. -/
def goalSource (type field name : Word) (length : Option Length) : List Stmt :=
  [.package (simpleName ⟨"testing".toList, by decide⟩),
    .struct ⟨"Part".toList, by decide⟩ [⟨simpleName type, field, none⟩],
    .message ⟨"Goal".toList, by decide⟩ [⟨simpleName ⟨"Part".toList, by decide⟩, name, length⟩]]

/-- The struct of such a file. -/
def partOf (type : Primitive) (field : Word) : Declaration where
  kind := .struct
  name := [⟨"testing".toList, by decide⟩, ⟨"Part".toList, by decide⟩]
  members := .element type field none .nil

/-- The message of such a file. -/
def goalOf (type : Primitive) (field name : Word) (length : Option Length) : Declaration where
  kind := .message
  name := [⟨"testing".toList, by decide⟩, ⟨"Goal".toList, by decide⟩]
  members := .struct (partOf type field).name (partOf type field).members name length .nil

theorem accepted_goal (type : Word) {field name : Word} {primitive : Primitive}
    {length : Option Length}
    (compiled : (compile (goalSource type field name length)).map Globals.declarations =
      some [partOf primitive field, goalOf primitive field name length]) :
    Accepted (goalOf primitive field name length) := by
  obtain ⟨globals, compiles, declared⟩ := Option.map_eq_some_iff.mp compiled
  exact ⟨_, globals, compiles, by simp [declared]⟩

/-- The message with a struct of an `int32_t`. -/
def leftGoal (length : Option Length) : Declaration :=
  goalOf .int32 ⟨"left".toList, by decide⟩ ⟨"parts".toList, by decide⟩ length

/-- The message with a struct of a `double`, under other names. -/
def rightGoal (length : Option Length) : Declaration :=
  goalOf .double ⟨"right".toList, by decide⟩ ⟨"pieces".toList, by decide⟩ length

/-- A message with a plain struct member is the only one of its text. -/
theorem simple_str_determines_layout_goal :
    Accepted (leftGoal none) ∧ ∀ other, Accepted other →
      other.members.simpleStr = (leftGoal none).members.simpleStr →
      other.members.layout = (leftGoal none).members.layout := by
  have accepted : Accepted (leftGoal none) :=
    accepted_goal ⟨"int32_t".toList, by decide⟩ (by decide)
  exact ⟨accepted, (simple_str_determines_layout_iff _ accepted).mpr (by decide)⟩

/-- Two messages whose member is an array of two structs have the same text although
the members have different names and the structs different members. -/
theorem simple_str_hides_arrays :
    Accepted (leftGoal (some ⟨2, by decide⟩)) ∧ Accepted (rightGoal (some ⟨2, by decide⟩)) ∧
    (leftGoal (some ⟨2, by decide⟩)).members.simpleStr =
      (rightGoal (some ⟨2, by decide⟩)).members.simpleStr ∧
    (leftGoal (some ⟨2, by decide⟩)).members.layout ≠
      (rightGoal (some ⟨2, by decide⟩)).members.layout := by
  refine ⟨?_, ?_, by decide, by decide⟩
  · exact accepted_goal ⟨"int32_t".toList, by decide⟩ (by decide)
  · exact accepted_goal ⟨"double".toList, by decide⟩ (by decide)

end Miranda.QCompiler
