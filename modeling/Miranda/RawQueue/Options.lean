import Mathlib.Tactic.IntervalCases

/-!
# Queue options

An option is one bit and a set of options is a 32-bit mask. The public wrappers
of the queue refuse a mask before the operation starts; `WriteLegal` and
`ReadLegal` restate their checks, and the enumerations below say which masks
survive. Every later result about a call starts from one of those masks.
-/

namespace Miranda.RawQueue

/-- The mask behind an `Options<RawQueue>` value. -/
structure Options where
  bits : BitVec 32
deriving DecidableEq, Repr

namespace Options

/-- Membership of a single option. -/
def has (options option : Options) : Bool := options.bits &&& option.bits != 0

/-- Combine two masks. -/
def union (options others : Options) : Options := ⟨options.bits ||| others.bits⟩

def popcount (bits : BitVec 32) : Nat := (List.range 32).countP bits.getLsbD

def noOthersSet (options allowed : Options) : Bool :=
  options.bits &&& ~~~allowed.bits == 0

def exactlyOneSet (options choices : Options) : Bool :=
  popcount (options.bits &&& choices.bits) == 1

def allSet (options wanted : Options) : Bool :=
  options.bits &&& wanted.bits == wanted.bits

end Options

def kPeek : Options := ⟨0x0001⟩
def kFromEnd : Options := ⟨0x0002⟩
def kNonBlock : Options := ⟨0x0004⟩
def kBlock : Options := ⟨0x0008⟩
def kOverride : Options := ⟨0x0010⟩

def kWriteFailureOptions : Options := (kNonBlock.union kBlock).union kOverride
def kValidOptions : Options := ((kPeek.union kFromEnd).union kNonBlock).union kBlock
def kBlockChoices : Options := kNonBlock.union kBlock
def kFromEndAndPeek : Options := kFromEnd.union kPeek

/-- What `WriteMessage` accepts. -/
def WriteLegal (options : Options) : Prop :=
  options.noOthersSet kWriteFailureOptions = true ∧
    options.exactlyOneSet kWriteFailureOptions = true

/-- What `CheckReadOptions` accepts. -/
def ReadLegal (options : Options) : Prop :=
  options.noOthersSet kValidOptions = true ∧
    options.exactlyOneSet kBlockChoices = true

/-- What `ReadMessageIndex` accepts. -/
def ReadIndexLegal (options : Options) : Prop :=
  ReadLegal options ∧ options.allSet kFromEndAndPeek = false

instance (options : Options) : Decidable (WriteLegal options) :=
  inferInstanceAs (Decidable (_ ∧ _))

instance (options : Options) : Decidable (ReadLegal options) :=
  inferInstanceAs (Decidable (_ ∧ _))

instance (options : Options) : Decidable (ReadIndexLegal options) :=
  inferInstanceAs (Decidable (_ ∧ _))

/-- A mask without foreign bits is numerically bounded by the allowed mask. -/
theorem noOthersSet_bound {options allowed : Options}
    (legal : options.noOthersSet allowed = true) :
    options.bits.toNat ≤ allowed.bits.toNat := by
  have cleared : options.bits &&& ~~~allowed.bits = 0 := by
    simpa [Options.noOthersSet] using legal
  have inside : options.bits = options.bits &&& allowed.bits := by
    apply BitVec.eq_of_getLsbD_eq
    intro position bounded
    have bit := congrArg (fun mask => mask.getLsbD position) cleared
    simp only [BitVec.getLsbD_and, BitVec.getLsbD_not, bounded, decide_true,
      Bool.true_and] at bit ⊢
    cases selected : options.bits.getLsbD position <;>
      cases offered : allowed.bits.getLsbD position <;> simp_all
  rw [inside]
  exact Nat.and_le_right

/-- What holds of the masks of all small values holds of a mask that has one. -/
@[elab_as_elim]
theorem options_of_values {motive : Options → Prop} {most : Nat}
    (values : ∀ value ≤ most, motive ⟨BitVec.ofNat 32 value⟩) (options : Options)
    (bound : options.bits.toNat ≤ most) : motive options := by
  have holds := values options.bits.toNat bound
  rwa [BitVec.ofNat_toNat, BitVec.setWidth_eq] at holds

/-- The only legal write masks are the three single failure modes. -/
theorem writeLegal_iff (options : Options) :
    WriteLegal options ↔
      options = kNonBlock ∨ options = kBlock ∨ options = kOverride := by
  constructor
  · intro legal
    have bound : options.bits.toNat ≤ 28 := noOthersSet_bound legal.1
    revert legal
    exact options_of_values (by decide) options bound
  · rintro (rfl | rfl | rfl) <;> decide

/-- A legal read mask chooses blocking or not, and freely peeks or reads the end. -/
theorem readLegal_iff (options : Options) :
    ReadLegal options ↔
      (options.has kNonBlock ≠ options.has kBlock) ∧ options.bits.toNat < 16 := by
  constructor
  · intro legal
    have bound : options.bits.toNat ≤ 15 := noOthersSet_bound legal.1
    revert legal
    exact options_of_values (by decide) options bound
  · rintro ⟨choice, bound⟩
    revert choice
    exact options_of_values (by decide) options (Nat.le_of_lt_succ bound)

end Miranda.RawQueue
