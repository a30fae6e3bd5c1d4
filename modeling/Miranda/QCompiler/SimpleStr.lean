import Miranda.QCompiler.Declarations

/-!
# What the text of a declaration shows

The text that type ids and message hashes are computed from shows the type and
the name of a plain member, and of a plain struct member all members in turn. Of
an array it shows the type name and the length only: neither the name of the
member nor the members of its struct.

The skeleton of the members keeps exactly what is shown. Two lists of members have
the same text if and only if they have the same skeleton: a line can be cut at its
first blank, a struct ends at the brace that no line starts with, and words
contain none of the characters in between.
-/

namespace Miranda.QCompiler

open Layouts List

theorem Primitive.text_injective : Function.Injective Primitive.text := by
  intro first second same
  have found : ∀ type : Primitive, all.find? (fun other => other.text == type.text) = some type := by
    intro type
    cases type <;> decide
  have one := found first
  rw [same, found second] at one
  exact (Option.some.inj one).symm

/-- The characters of type names. -/
def isTypeChar (char : Char) : Bool := isWordChar char || char == ':' || char == '.'

variable {char : Char} {after later type : List Char}

theorem isTypeChar_of_isWordChar (word : isWordChar char = true) :
    isTypeChar char = true := by
  simp [isTypeChar, word]

theorem Primitive.isTypeChar_of_mem (type : Primitive) :
    ∀ char ∈ type.text, isTypeChar char = true := by
  have every : type.text.all isTypeChar = true := by
    cases type <;> rfl
  exact all_eq_true.mp every

theorem isTypeChar_of_mem_getName {name : FullName} (member : char ∈ getName name) :
    isTypeChar char = true := by
  obtain ⟨word, _, inside⟩ := mem_flatMap.mp member
  cases inside with
  | head => decide
  | tail _ inside => exact isTypeChar_of_isWordChar (word.isWordChar_of_mem inside)

/-- A text without a separator can be cut off in front of it. -/
theorem cut_at {separator : Char} {first second : List Char} (clean : separator ∉ first)
    (other : separator ∉ second) (same : first ++ separator :: later = second ++ separator :: after) :
    first = second ∧ later = after := by
  induction first generalizing second with
  | nil =>
    cases second with
    | nil => simpa using same
    | cons char rest =>
      simp only [nil_append, cons_append, cons.injEq] at same
      exact (other (same.1 ▸ mem_cons_self)).elim
  | cons char rest ih =>
    cases second with
    | nil =>
      simp only [nil_append, cons_append, cons.injEq] at same
      exact (clean (same.1 ▸ mem_cons_self)).elim
    | cons otherChar otherRest =>
      simp only [cons_append, cons.injEq] at same
      obtain ⟨rests, tails⟩ := ih
        (fun inside => clean (mem_cons_of_mem _ inside))
        (fun inside => other (mem_cons_of_mem _ inside)) same.2
      rw [same.1, rests]
      exact ⟨rfl, tails⟩

theorem Word.not_mem_text (word : Word) (separator : isWordChar char = false) :
    char ∉ word.text := by
  intro member
  rw [word.isWordChar_of_mem member] at separator
  cases separator

theorem getName_dot (name : FullName) : ∃ later, getName name ++ ['.'] = '.' :: later := by
  cases name with
  | nil => exact ⟨[], rfl⟩
  | cons word rest => exact ⟨_, rfl⟩

theorem getName_injective : Function.Injective getName := by
  have general : ∀ name other : FullName, getName name ++ ['.'] = getName other ++ ['.'] →
      name = other := by
    intro name
    induction name with
    | nil =>
      intro other same
      cases other with
      | nil => rfl
      | cons word rest => simp [getName] at same
    | cons word rest ih =>
      intro other same
      cases other with
      | nil => simp [getName] at same
      | cons otherWord otherRest =>
        simp only [getName, flatMap_cons, cons_append, append_assoc,
          cons.injEq, true_and] at same
        change word.text ++ (getName rest ++ ['.']) =
          otherWord.text ++ (getName otherRest ++ ['.']) at same
        obtain ⟨later, dotted⟩ := getName_dot rest
        obtain ⟨after, otherDotted⟩ := getName_dot otherRest
        rw [dotted, otherDotted] at same
        obtain ⟨words, tails⟩ := cut_at (word.not_mem_text (by decide))
          (otherWord.not_mem_text (by decide)) same
        rw [Word.ext words, ih otherRest (by rw [dotted, otherDotted, tails])]
  intro name other same
  exact general name other (congrArg (· ++ ['.']) same)

theorem toDigits_injective {first second : Nat}
    (same : Nat.toDigits 10 first = Nat.toDigits 10 second) : first = second := by
  have value := Nat.ofDigitChars_ten_toDigits (n := first)
  rw [same, Nat.ofDigitChars_ten_toDigits] at value
  exact value.symm

theorem not_mem_toDigits (number : Nat) : ']' ∉ Nat.toDigits 10 number := by
  intro member
  exact absurd (Nat.isDigit_of_mem_toDigits (by decide) (by decide) member) (by decide)

/-- What the text of members shows. The type of an array is shown by its name. -/
inductive Skeleton where
  | nil
  | element (type : Primitive) (name : Word) (rest : Skeleton)
  | struct (body : Skeleton) (name : Word) (rest : Skeleton)
  | array (type : Primitive ⊕ FullName) (length : Length) (rest : Skeleton)

/-- The text of the type of an array. -/
def typeText : Primitive ⊕ FullName → List Char
  | .inl type => type.text
  | .inr name => getName name

namespace Skeleton

def lines : Skeleton → List Char
  | nil => []
  | element type name rest => type.text ++ ' ' :: (name.text ++ '\n' :: rest.lines)
  | struct body name rest =>
    '{' :: '\n' :: (body.lines ++ '}' :: ' ' :: (name.text ++ '\n' :: rest.lines))
  | array type length rest =>
    typeText type ++ ' ' :: '[' :: (Nat.toDigits 10 length.value ++ ']' :: '\n' :: rest.lines)

end Skeleton

namespace Members

def skeleton : Members → Skeleton
  | nil => .nil
  | element type name none rest => .element type name rest.skeleton
  | element type _ (some length) rest => .array (.inl type) length rest.skeleton
  | struct _ body name none rest => .struct body.skeleton name rest.skeleton
  | struct type _ _ (some length) rest => .array (.inr type) length rest.skeleton

theorem lines_skeleton (members : Members) : members.skeleton.lines = members.lines := by
  induction members with
  | nil => rfl
  | element type name length rest ih =>
    cases length with
    | none => simp [skeleton, lines, Skeleton.lines, ih]
    | some length => simp [skeleton, lines, Skeleton.lines, typeText, ih]
  | struct type body name length rest bodyHypothesis restHypothesis =>
    cases length with
    | none => simp [skeleton, lines, Skeleton.lines, bodyHypothesis, restHypothesis]
    | some length => simp [skeleton, lines, Skeleton.lines, typeText, restHypothesis]

end Members

theorem isTypeChar_of_mem_typeText {type : Primitive ⊕ FullName} (member : char ∈ typeText type) :
    isTypeChar char = true := by
  cases type with
  | inl type => exact type.isTypeChar_of_mem char member
  | inr name => exact isTypeChar_of_mem_getName member

theorem typeText_injective : Function.Injective typeText := by
  have heads : ∀ type : Primitive, type.text.head? ≠ none ∧ type.text.head? ≠ some '.' := by
    intro type
    cases type <;> decide
  have mixed : ∀ (type : Primitive) (name : FullName), type.text ≠ getName name := by
    intro type name same
    cases name with
    | nil => exact (heads type).1 (congrArg _ same)
    | cons word rest => exact (heads type).2 (congrArg List.head? same)
  intro first second same
  cases first with
  | inl type =>
    cases second with
    | inl other => rw [Primitive.text_injective same]
    | inr name => exact (mixed type name same).elim
  | inr name =>
    cases second with
    | inl type => exact (mixed type name same.symm).elim
    | inr other => rw [getName_injective same]

/-- A line that starts with a type does not start with a brace. -/
theorem typeText_ne_brace (type : Primitive ⊕ FullName) {brace : Char}
    (isBrace : isTypeChar brace = false ∧ brace ≠ ' ') :
    typeText type ++ ' ' :: later ≠ brace :: after := by
  intro same
  cases shown : typeText type with
  | nil =>
    rw [shown] at same
    exact isBrace.2 (cons.inj same).1.symm
  | cons first rest =>
    rw [shown] at same
    have typed : isTypeChar first = true := by
      apply isTypeChar_of_mem_typeText
      rw [shown]
      exact mem_cons_self
    rw [(cons.inj same).1, isBrace.1] at typed
    cases typed

theorem Word.ne_bracket (word : Word) (later after : List Char) :
    word.text ++ '\n' :: later ≠ '[' :: after := by
  intro same
  cases split : word.text with
  | nil => exact word.text_ne_nil split
  | cons first rest =>
    rw [split] at same
    simp only [cons_append, cons.injEq] at same
    have valid := word.isWordChar_of_mem (split ▸ mem_cons_self : first ∈ word.text)
    rw [same.1] at valid
    exact absurd valid (by decide)

/-- A blank is in no type. -/
theorem blank_not_mem (type : Primitive ⊕ FullName) : ' ' ∉ typeText type := by
  intro member
  exact absurd (isTypeChar_of_mem_typeText member) (by decide)

/-- The lines up to a closing brace show the skeleton and where it ends. -/
theorem Skeleton.lines_inj (one two : Skeleton) (later after : List Char)
    (same : one.lines ++ '}' :: later = two.lines ++ '}' :: after) :
    one = two ∧ later = after := by
  induction one generalizing two later after with
  | nil =>
    cases two with
    | nil => simpa [lines] using same
    | element type name rest =>
      simp only [lines, nil_append, append_assoc, cons_append] at same
      exact (typeText_ne_brace (.inl type) (by decide) same.symm).elim
    | struct body name rest => simp [lines] at same
    | array type length rest =>
      simp only [lines, nil_append, append_assoc, cons_append] at same
      exact (typeText_ne_brace type (by decide) same.symm).elim
  | element type name rest ih =>
    cases two with
    | nil =>
      simp only [lines, nil_append, append_assoc, cons_append] at same
      exact (typeText_ne_brace (.inl type) (by decide) same).elim
    | element otherType otherName otherRest =>
      simp only [lines, append_assoc, cons_append] at same
      obtain ⟨types, same⟩ :=
        cut_at (blank_not_mem (.inl type)) (blank_not_mem (.inl otherType)) same
      obtain ⟨names, same⟩ := cut_at (name.not_mem_text (by decide))
        (otherName.not_mem_text (by decide)) same
      obtain ⟨rests, tails⟩ := ih _ _ _ same
      rw [Primitive.text_injective types, Word.ext names, rests]
      exact ⟨rfl, tails⟩
    | struct body otherName otherRest =>
      simp only [lines, append_assoc, cons_append] at same
      exact (typeText_ne_brace (.inl type) (by decide) same).elim
    | array otherType length otherRest =>
      simp only [lines, append_assoc, cons_append] at same
      obtain ⟨_, same⟩ := cut_at (blank_not_mem (.inl type)) (blank_not_mem otherType) same
      exact (name.ne_bracket _ _ same).elim
  | struct body name rest bodyHypothesis restHypothesis =>
    cases two with
    | nil => simp [lines] at same
    | element type otherName otherRest =>
      simp only [lines, append_assoc, cons_append] at same
      exact (typeText_ne_brace (.inl type) (by decide) same.symm).elim
    | struct otherBody otherName otherRest =>
      simp only [lines, append_assoc, cons_append, cons.injEq, true_and] at same
      obtain ⟨bodies, same⟩ := bodyHypothesis _ _ _ same
      simp only [cons.injEq, true_and] at same
      obtain ⟨names, same⟩ := cut_at (name.not_mem_text (by decide))
        (otherName.not_mem_text (by decide)) same
      obtain ⟨rests, tails⟩ := restHypothesis _ _ _ same
      rw [bodies, Word.ext names, rests]
      exact ⟨rfl, tails⟩
    | array type length otherRest =>
      simp only [lines, append_assoc, cons_append] at same
      exact (typeText_ne_brace type (by decide) same.symm).elim
  | array type length rest ih =>
    cases two with
    | nil =>
      simp only [lines, nil_append, append_assoc, cons_append] at same
      exact (typeText_ne_brace type (by decide) same).elim
    | element otherType name otherRest =>
      simp only [lines, append_assoc, cons_append] at same
      obtain ⟨_, same⟩ := cut_at (blank_not_mem type) (blank_not_mem (.inl otherType)) same
      exact (name.ne_bracket _ _ same.symm).elim
    | struct body name otherRest =>
      simp only [lines, append_assoc, cons_append] at same
      exact (typeText_ne_brace type (by decide) same).elim
    | array otherType otherLength otherRest =>
      simp only [lines, append_assoc, cons_append] at same
      obtain ⟨types, same⟩ := cut_at (blank_not_mem type) (blank_not_mem otherType) same
      simp only [cons.injEq, true_and] at same
      obtain ⟨digits, same⟩ := cut_at (not_mem_toDigits _) (not_mem_toDigits _) same
      simp only [cons.injEq, true_and] at same
      obtain ⟨rests, tails⟩ := ih _ _ _ same
      have lengths : length = otherLength := by
        obtain ⟨value, positive⟩ := length
        obtain ⟨otherValue, otherPositive⟩ := otherLength
        simpa using toDigits_injective digits
      rw [typeText_injective types, lengths, rests]
      exact ⟨rfl, tails⟩

/-- Declarations have the same text exactly if the same is shown of them. -/
theorem Members.simpleStr_eq_iff (members other : Members) :
    members.simpleStr = other.simpleStr ↔ members.skeleton = other.skeleton := by
  constructor
  · intro same
    simp only [simpleStr, cons_append, cons.injEq, true_and,
      ← lines_skeleton] at same
    exact (Skeleton.lines_inj _ _ [] [] same).1
  · intro same
    rw [simpleStr, simpleStr, ← lines_skeleton, ← lines_skeleton, same]

/-- No member is an array, nor is a member of a struct among them. -/
def Members.arrayFree : Members → Bool
  | .nil => true
  | .element _ _ none rest => rest.arrayFree
  | .struct _ body _ none rest => body.arrayFree && rest.arrayFree
  | .element _ _ (some _) _ => false
  | .struct _ _ _ (some _) _ => false

/-- Without arrays the skeleton is the whole layout. -/
theorem Members.layout_eq_of_skeleton (members other : Members) (free : members.arrayFree = true)
    (same : members.skeleton = other.skeleton) : other.layout = members.layout := by
  induction members generalizing other with
  | nil =>
    cases other with
    | nil => rfl
    | element type name length rest => cases length <;> simp [skeleton] at same
    | struct type body name length rest => cases length <;> simp [skeleton] at same
  | element type name length rest ih =>
    cases length with
    | some length => simp [arrayFree] at free
    | none =>
      cases other with
      | nil => simp [skeleton] at same
      | element otherType otherName length otherRest =>
        cases length with
        | some length => simp [skeleton] at same
        | none =>
          simp only [skeleton, Skeleton.element.injEq] at same
          obtain ⟨rfl, rfl, rests⟩ := same
          rw [layout, layout, ih otherRest free rests]
      | struct type body name length rest => cases length <;> simp [skeleton] at same
  | struct type body name length rest bodyHypothesis restHypothesis =>
    cases length with
    | some length => simp [arrayFree] at free
    | none =>
      simp only [arrayFree, Bool.and_eq_true] at free
      cases other with
      | nil => simp [skeleton] at same
      | element type name length rest => cases length <;> simp [skeleton] at same
      | struct otherType otherBody otherName length otherRest =>
        cases length with
        | some length => simp [skeleton] at same
        | none =>
          simp only [skeleton, Skeleton.struct.injEq] at same
          obtain ⟨bodies, rfl, rests⟩ := same
          rw [layout, layout, bodyHypothesis otherBody free.1 bodies,
            restHypothesis otherRest free.2 rests]

end Miranda.QCompiler
