import Miranda.QCompiler.Descriptions
import Miranda.QCompiler.Renaming

/-!
# The codec and the descriptions

The generated codec of a declaration and its description are made from the same
members by different code. They agree if the calls of the codec cover the bytes
behind the parent class in the order of the declaration, if an object comes back
from its bytes, and if the printer that follows the description consumes exactly the
bytes and visits every leaf under its name.
-/

namespace Miranda.QCompiler

open Bytes Layouts QueueTypes List BitVec

section Ids

variable {digest : List Char → BitVec 16}

theorem isPrimitive_eq (typeId : TypeId) : isPrimitive typeId = typeId.getLsbD 13 := by
  have flag : (0x2000#32 : TypeId) = .twoPow 32 13 := by decide
  rw [isPrimitive, flag, and_twoPow]
  cases typeId.getLsbD 13 with
  | true => decide
  | false => rfl

theorem isPrimitive_ofNat (hash : BitVec 16) (low : Nat) :
    isPrimitive (BitVec.ofNat 32 (hash.toNat <<< 16 ||| low)) = low.testBit 13 := by
  rw [isPrimitive_eq, getLsbD_ofNat]
  simp

theorem isPrimitive_primitive (type : Primitive) : isPrimitive (type.typeId digest) = true := by
  rw [Primitive.typeId, Primitive.getTypeID, Nat.or_assoc, isPrimitive_ofNat, Nat.testBit_or,
    Bool.or_eq_true]
  exact .inl (by decide)

theorem isPrimitive_members {members : Members} (small : members.size < 0x2000) :
    isPrimitive (members.typeId digest) = false :=
  (isPrimitive_ofNat _ _).trans (Nat.testBit_lt_two_pow (show members.size < 2 ^ 13 from small))

theorem primitiveOf_typeId (distinct : Function.Injective (Primitive.typeId digest))
    (type : Primitive) : primitiveOf digest (type.typeId digest) = some type := by
  cases found : primitiveOf digest _ with
  | none =>
    have absent := find?_eq_none.mp found type type.mem_all
    exact absurd (beq_self_eq_true _) absent
  | some other =>
    have same := find?_some found
    rw [distinct (beq_iff_eq.mp same)]

theorem toNat_low (hash : BitVec 16) (low : Nat) :
    (BitVec.ofNat 32 (hash.toNat <<< 16 ||| low) &&& 0xFFFF#32).toNat = low % 2 ^ 16 := by
  have mask : (0xFFFF#32).toNat = 2 ^ 16 - 1 := rfl
  rw [toNat_and, toNat_ofNat, mask, Nat.and_two_pow_sub_one_eq_mod,
    Nat.mod_mod_of_dvd _ (by decide), Nat.or_mod_two_pow, Nat.shiftLeft_eq, Nat.mul_mod_left,
    Nat.zero_or]

/-- An id fits into 32 bits and says to the runtime what the type is. -/
structure IdMeans (id : Nat) (primitive : Bool) (size : Nat) : Prop where
  fits : id < 2 ^ 32
  primitive : isPrimitive (BitVec.ofNat 32 id) = primitive
  size : (sizeof (BitVec.ofNat 32 id)).toNat = size

theorem id_fits (hash : BitVec 16) {low : Nat} (small : low < 2 ^ 16) :
    hash.toNat <<< 16 ||| low < 2 ^ 32 := by
  have high : hash.toNat <<< 16 < 2 ^ 32 := by
    have := hash.isLt
    omega
  exact Nat.or_lt_two_pow high (by omega)

/-- The id of a primitive type says what the type is. The id of a struct or of a message does so
exactly if the size leaves the flag of the primitive types and the digest alone.

Proof: the flag is bit 13 of the lower half, where the size stands. -/
theorem type_ids_iff (digest : List Char → BitVec 16) :
    (∀ type : Primitive, IdMeans (type.getTypeID digest) true type.size) ∧
      ∀ members : Members, IdMeans (members.getTypeID digest) false members.size ↔
        members.size < 0x10000 ∧ members.size / 0x2000 % 2 = 0 := by
  constructor
  · intro type
    have low : 0x2000 ||| type.size < 2 ^ 16 ∧ (0x2000 ||| type.size).testBit 13 = true ∧
        (0x2000 ||| type.size) - 0x2000 = type.size ∧ 0x2000 ≤ 0x2000 ||| type.size := by
      cases type <;> decide
    obtain ⟨small, marked, rest, above⟩ := low
    have half := toNat_low (digest type.text) (0x2000 ||| type.size)
    have primitive := isPrimitive_ofNat (digest type.text) (0x2000 ||| type.size)
    rw [marked] at primitive
    rw [Nat.mod_eq_of_lt small] at half
    rw [Primitive.getTypeID, Nat.or_assoc]
    refine ⟨id_fits _ small, primitive, ?_⟩
    rw [sizeof, if_pos primitive, toNat_sub_of_le, half]
    · exact rest
    · rw [le_def, half]
      exact above
  · intro members
    have bit : members.size.testBit 13 = false ↔ members.size / 0x2000 % 2 = 0 := by
      rw [Nat.testBit_eq_decide_div_mod_eq, decide_eq_false_iff_not]
      omega
    have primitive := isPrimitive_ofNat (digest members.simpleStr) members.size
    have half := toNat_low (digest members.simpleStr) members.size
    rw [Members.getTypeID, ← bit]
    constructor
    · rintro ⟨_, isStruct, size⟩
      rw [sizeof, if_neg (by rw [isStruct]; decide)] at size
      exact ⟨by omega, primitive.symm.trans isStruct⟩
    · rintro ⟨small, isStruct⟩
      rw [isStruct] at primitive
      refine ⟨id_fits _ small, primitive, ?_⟩
      rw [sizeof, if_neg (by rw [primitive]; decide), half]
      exact Nat.mod_eq_of_lt small

/-- A struct with an array of 8192 bytes passes for a primitive type of no bytes. -/
theorem type_id_of_large_array :
    let members := Members.element .uint8 ⟨['x'], rfl⟩ (some ⟨0x2000, by decide⟩) .nil
    members.size = 0x2000 ∧ isPrimitive (members.typeId fun _ => 0) = true ∧
      sizeof (members.typeId fun _ => 0) = 0 := by
  decide

end Ids

/-- The array lengths of the members themselves, which are zero where there is none. -/
def Members.counts : Members → List Nat
  | .nil => []
  | .element _ _ length rest => count length :: rest.counts
  | .struct _ _ _ length rest => count length :: rest.counts

/-- The description has room for the number of the members and for their lengths. -/
def Members.Counted (members : Members) : Prop :=
  members.counts.length < 2 ^ 16 ∧ ∀ number ∈ members.counts, number < 2 ^ 32

/-- The layout of the members as a description names them. -/
def Members.described (members : Members) : Layout (List UInt8) Primitive :=
  members.layout.rename Word.bytes

/-- The visits of a walk over an object of the declaration. -/
def Declaration.visits (declaration : Declaration) (object : Object) :
    List (Visit (List UInt8) Primitive Nat) :=
  .opened :: (declaration.members.layout.visits Primitive.size
    (fun place => object.value place.path) [] declaration.kind.parentSize).map
      (Visit.rename Word.bytes) ++ [.closed]

/-- The calls are for the leaves in the order of the declaration, and they cover the
bytes from the size of the parent class to the size without gap or overlap. -/
structure Covers (declaration : Declaration) (calls : List (Place Word Primitive)) : Prop where
  inOrder : calls.map (fun call => (call.path, call.kind)) = declaration.leaves
  tiles : Tiles declaration.kind.parentSize declaration.Size
    (calls.map fun call => (call.offset, call.kind.size))

/-- The codec of a declaration is right and agrees with its description, which is
printed with the types that the program has added. -/
structure Agrees (digest : List Char → BitVec 16) (rendering : Primitive → List UInt8 → List UInt8)
    (program : List Declaration) (declaration : Declaration) : Prop where
  writes : ∀ counter, Covers declaration ((declaration.createSerialize counter).calls fun _ => 0)
  reads : ∀ counter, Covers declaration ((declaration.createDeserialize counter).calls fun _ => 0)
  restores : ∀ (counter other : Nat) (object into : Object) (buffer : Image),
    object.Fits declaration → ∃ image restored,
      declaration.serialize counter object buffer = some image ∧
      declaration.deserialize other image into = some restored ∧
      (declaration.kind = .message → restored.sentTime = object.sentTime) ∧
      ∀ leaf ∈ declaration.leaves, restored.value leaf.1 = object.value leaf.1
  prints : ∀ (counter : Nat) (object : Object) (buffer image : Image), object.Fits declaration →
    declaration.serialize counter object buffer = some image →
    ∀ extra, declaration.Size + extra < 2 ^ 64 →
    ∃ depth room, ∀ fuel, depth ≤ fuel → ∀ outputBytes, room ≤ outputBytes →
    ∃ cursor, printMessage digest rendering (getType digest program) image fuel
        (declaration.messageType digest) 0 ⟨[], outputBytes, declaration.Size + extra, []⟩ =
          some cursor ∧
      cursor.inputBytes = extra ∧ cursor.visits = declaration.visits object

theorem covers_places (declaration : Declaration) : Covers declaration declaration.places :=
  ⟨map_places_leaves declaration, tiles_declaration declaration⟩

theorem length_fields (digest : List Char → BitVec 16) (members : Members) :
    (members.fields digest).length = members.counts.length := by
  induction members with
  | nil => rfl
  | element type name length rest ih =>
    simp [Members.fields, Members.counts, ih]
  | struct type body name length rest bodyHypothesis restHypothesis =>
    simp [Members.fields, Members.counts, restHypothesis]

variable {declaration : Declaration} {digest : List Char → BitVec 16} {members : Members}

theorem fields_messageType (few : declaration.members.counts.length < 2 ^ 16) :
    (declaration.messageType digest).fields = declaration.members.fields digest := by
  rw [← length_fields digest] at few
  simp only [Declaration.messageType, Nat.mod_eq_of_lt few, take_length]

/-- The type of a field is primitive or that of a struct member. -/
theorem type_of_mem_fields {field : Field} (member : field ∈ members.fields digest) :
    (∃ type : Primitive, field.type = type.typeId digest) ∨
      ∃ struct ∈ members.structs, field.type = struct.members.typeId digest := by
  induction members with
  | nil => simp [Members.fields] at member
  | element type name length rest ih =>
    cases member with
    | head => exact .inl ⟨type, rfl⟩
    | tail _ member => exact ih member
  | struct type body name length rest bodyHypothesis restHypothesis =>
    cases member with
    | head => exact .inr ⟨⟨.struct, type, body⟩, mem_cons_self, rfl⟩
    | tail _ member =>
      apply (restHypothesis member).imp id
      rintro ⟨struct, inside, same⟩
      exact ⟨struct, mem_cons_of_mem _ inside, same⟩

/-- What the printer visits of the bytes of an object are the visits of the object. -/
theorem visits_serialized {object : Object} {image : Image} (fits : object.Fits declaration)
    (serialized : Serialized declaration object image) :
    declaration.visits object =
      .opened :: declaration.members.described.visits Primitive.size
        (fun place => readValue image place.kind place.offset) [] declaration.kind.parentSize ++
        [.closed] := by
  have values : ∀ place ∈ declaration.places,
      object.value place.path = readValue image place.kind place.offset := by
    intro place member
    rw [readValue, serialized.leaves place member]
    exact (place.kind.decode_encode _ (fits _ (mem_leaves_of_place declaration member))).symm
  rw [Declaration.visits, Layout.visits_congr _ _ _ values, Members.described,
    Layout.visits_rename _ _ _ [] []]

theorem superSize_messageType (digest : List Char → BitVec 16) (declaration : Declaration) :
    (declaration.messageType digest).superSize.toNat = declaration.kind.parentSize := by
  cases kind : declaration.kind <;> simp [Declaration.messageType, kind, Kind.parentSize,
    messageSize]

/-- A declaration whose description expands to its own layout agrees with it. -/
theorem agrees_of_expands {rendering : Primitive → List UInt8 → List UInt8}
    {program : List Declaration} (reachable : declaration.Reachable)
    (expands : Expands digest (getType digest program) (declaration.messageType digest).fields
      declaration.members.described) :
    Agrees digest rendering program declaration where
  writes counter := by
    rw [calls_serialize]
    exact covers_places declaration
  reads counter := by
    rw [calls_deserialize]
    exact covers_places declaration
  restores counter other object into buffer fits := by
    obtain ⟨image, written, serialized⟩ := serialize_serialized reachable counter object buffer
    obtain ⟨restored, read, right⟩ := deserialize_serialized reachable fits serialized other into
    exact ⟨image, restored, written, read, right⟩
  prints counter object buffer image fits written extra small := by
    obtain ⟨other, again, serialized⟩ := serialize_serialized reachable counter object buffer
    rw [written] at again
    cases again
    obtain ⟨text, printed⟩ := @Expands.prints digest rendering _ image _ _
      expands [] true _
    obtain ⟨depth, room, _, run⟩ := prints_message printed
    refine ⟨depth, room, ?_⟩
    intro fuel enough outputBytes space
    have size : (declaration.messageType digest).superSize.toNat +
        declaration.members.described.size Primitive.size = declaration.Size := by
      rw [superSize_messageType, Members.described, Layout.size_rename, Members.size_layout,
        Declaration.Size, Nat.add_comm]
    rw [size] at run
    refine ⟨_, run fuel enough _ space
      (Nat.le_add_right _ _) small, Nat.add_sub_cancel_left _ _, ?_⟩
    dsimp only
    rw [visits_serialized fits serialized, superSize_messageType, Nat.zero_add, nil_append]

section Expanding

variable {digest : List Char → BitVec 16} {get : TypeId → Option MessageType}

/-- Fields expand to one layout only. -/
theorem expands_unique {fields : List Field} {one two : Layout (List UInt8) Primitive}
    (first : Expands digest get fields one) (second : Expands digest get fields two) :
    one = two := by
  induction first generalizing two with
  | nil =>
    cases second
    rfl
  | leaf primitive known tail ih =>
    cases second with
    | leaf _ alsoKnown others =>
      rw [known] at alsoKnown
      cases alsoKnown
      rw [ih others]
    | group struct => exact absurd primitive (by simp [struct])
  | group struct found inner tail bodyHypothesis restHypothesis =>
    cases second with
    | leaf primitive => exact absurd primitive (by simp [struct])
    | group _ alsoFound body others =>
      rw [found] at alsoFound
      cases alsoFound
      rw [bodyHypothesis body, restHypothesis others]

/-- Fields whose types expand have a layout, which is no larger than their number and
the largest of them allow. -/
theorem exists_expands {width : Nat} (wide : 8 ≤ width) (fields : List Field)
    (leaves : ∀ field ∈ fields, isPrimitive field.type = true →
      ∃ type, primitiveOf digest field.type = some type)
    (groups : ∀ field ∈ fields, isPrimitive field.type = false →
      ∃ type body, get field.type = some type ∧ Expands digest get type.fields body ∧
        type.superSize.toNat + body.size Primitive.size ≤ width) :
    ∃ layout, Expands digest get fields layout ∧
      layout.size Primitive.size ≤ fields.length * (2 ^ 32 * width) := by
  have few : ∀ field : Field, copies field.length.toNat ≤ 2 ^ 32 := by
    intro field
    have bound := field.length.isLt
    simp only [copies]
    split <;> omega
  induction fields with
  | nil => exact ⟨.nil, .nil, Nat.zero_le _⟩
  | cons field rest ih =>
    obtain ⟨layout, expands, bound⟩ := ih
      (fun other member => leaves other (mem_cons_of_mem _ member))
      (fun other member => groups other (mem_cons_of_mem _ member))
    rw [length_cons, Nat.succ_mul, Nat.add_comm]
    cases kind : isPrimitive _ with
    | true =>
      obtain ⟨type, known⟩ := leaves field mem_cons_self kind
      refine ⟨_, .leaf kind known expands, Nat.add_le_add (Nat.mul_le_mul (few field) ?_) bound⟩
      cases type <;> simp only [Primitive.size] <;> omega
    | false =>
      obtain ⟨type, body, found, inner, fits⟩ := groups field mem_cons_self kind
      exact ⟨_, .group kind found inner expands,
        Nat.add_le_add (Nat.mul_le_mul (few field) fits) bound⟩

theorem expands_cons {field : Field} {rest : List Field} {layout : Layout (List UInt8) Primitive}
    (expands : Expands digest get (field :: rest) layout) :
    (∃ type tail, Expands digest get rest tail ∧
      layout = .leaf field.name field.length.toNat type tail) ∨
    ∃ type body tail, get field.type = some type ∧ Expands digest get type.fields body ∧
      Expands digest get rest tail ∧
      layout = .group field.name field.length.toNat type.superSize.toNat body tail := by
  cases expands with
  | leaf _ _ tail => exact .inl ⟨_, _, tail, rfl⟩
  | group _ found inner tail => exact .inr ⟨_, _, _, found, inner, tail, rfl⟩

/-- For every struct member a type without a parent is found that expands to the layout
of the struct. -/
def Resolved (digest : List Char → BitVec 16) (get : TypeId → Option MessageType)
    (members : Members) : Prop :=
  ∀ struct ∈ members.structs, ∃ type, get (struct.members.typeId digest) = some type ∧
    type.superSize.toNat = 0 ∧ Expands digest get type.fields struct.members.described

/-- Members expand to their own layout if their lengths fit and their structs do. -/
theorem expands_members (distinct : Function.Injective (Primitive.typeId digest))
    {members : Members} (lengths : ∀ number ∈ members.counts, number < 2 ^ 32)
    (small : ∀ struct ∈ members.structs, struct.members.size < 0x2000)
    (resolved : Resolved digest get members) :
    Expands digest get (members.fields digest) members.described := by
  induction members with
  | nil => exact .nil
  | element type name length rest ih =>
    obtain ⟨fits, later⟩ := forall_mem_cons.mp lengths
    have leaf : Expands digest get ((Members.element type name length rest).fields digest) _ :=
      .leaf (isPrimitive_primitive type) (primitiveOf_typeId distinct type) (ih later small resolved)
    rwa [toNat_ofNat, Nat.mod_eq_of_lt fits] at leaf
  | struct type body name length rest bodyHypothesis restHypothesis =>
    obtain ⟨fits, later⟩ := forall_mem_cons.mp lengths
    obtain ⟨little, smaller⟩ := forall_mem_cons.mp small
    obtain ⟨⟨found, gets, noGap, inner⟩, others⟩ := forall_mem_cons.mp resolved
    have group : Expands digest get ((Members.struct type body name length rest).fields digest) _ :=
      .group (isPrimitive_members little) gets inner (restHypothesis later smaller others)
    rwa [toNat_ofNat, Nat.mod_eq_of_lt fits, noGap] at group

/-- Only then does a part of their fields expand to their layout, and it has all of
them. -/
theorem members_of_expands {members : Members} {number : Nat}
    (expands : Expands digest get ((members.fields digest).take number) members.described) :
    members.counts.length ≤ number ∧ (∀ number ∈ members.counts, number < 2 ^ 32) ∧
      Resolved digest get members := by
  induction members generalizing number with
  | nil => simp [Members.counts, Resolved, Members.structs]
  | element type name length rest ih =>
    cases number with
    | zero => cases expands
    | succ number =>
      rcases expands_cons expands with ⟨kind, tail, others, same⟩ | ⟨_, _, _, _, _, _, same⟩
      · simp only [Members.described, Members.layout, Layout.rename, Layout.leaf.injEq,
          toNat_ofNat] at same
        obtain ⟨_, fits, _, rests⟩ := same
        rw [← rests] at others
        obtain ⟨enough, lengths, resolved⟩ := ih others
        refine ⟨Nat.succ_le_succ enough, forall_mem_cons.mpr ⟨?_, lengths⟩, resolved⟩
        rw [fits]
        exact Nat.mod_lt _ (Nat.two_pow_pos 32)
      · simp [Members.described, Members.layout, Layout.rename] at same
  | struct type body name length rest bodyHypothesis restHypothesis =>
    cases number with
    | zero => cases expands
    | succ number =>
      rcases expands_cons expands with ⟨_, _, _, same⟩ | ⟨found, inner, tail, gets, one, others, same⟩
      · simp [Members.described, Members.layout, Layout.rename] at same
      · simp only [Members.described, Members.layout, Layout.rename, Layout.group.injEq,
          toNat_ofNat] at same
        obtain ⟨_, fits, noGap, bodies, rests⟩ := same
        rw [← rests] at others
        rw [← bodies] at one
        obtain ⟨enough, lengths, resolved⟩ := restHypothesis others
        refine ⟨Nat.succ_le_succ enough, forall_mem_cons.mpr ⟨?_, lengths⟩,
          forall_mem_cons.mpr ⟨⟨found, gets, noGap.symm, one⟩, resolved⟩⟩
        rw [fits]
        exact Nat.mod_lt _ (Nat.two_pow_pos 32)

end Expanding

theorem Members.size_requests_le (member : declaration ∈ members.requests) :
    declaration.members.size ≤ members.size := by
  induction members with
  | nil => simp [requests] at member
  | element type name length rest ih =>
    have later := ih member
    cases length <;> simp only [size] <;> omega
  | struct type body name length rest bodyHypothesis restHypothesis =>
    have inside : declaration.members.size ≤ body.size ∨ declaration.members.size ≤ rest.size := by
      rcases mem_append.mp member with inner | outer
      · exact .inl (bodyHypothesis inner)
      · cases outer with
        | head => exact .inl (Nat.le_refl _)
        | tail _ outer => exact .inr (restHypothesis outer)
    cases length with
    | none =>
      simp only [size]
      omega
    | some length =>
      have once := Nat.le_mul_of_pos_right body.size length.positive
      simp only [size]
      omega

section Programs

variable {digest : List Char → BitVec 16} {rendering : Primitive → List UInt8 → List UInt8}
  {program : List Declaration}

theorem small_requests (small : ∀ declaration ∈ program, declaration.members.size < 0x2000) :
    ∀ declaration ∈ requests program, declaration.members.size < 0x2000 := by
  intro declaration member
  obtain ⟨asked, inside, within⟩ := mem_flatMap.mp member
  have bound := small asked inside
  rcases mem_append.mp within with nested | itself
  · exact Nat.lt_of_le_of_lt (Members.size_requests_le nested) bound
  · rwa [mem_singleton.mp itself]

variable {declaration struct : Declaration}

theorem Grounded.structs_mem {declarations : List Declaration} (grounded : Grounded declarations)
    (member : declaration ∈ declarations) (inside : struct ∈ declaration.members.structs) :
    struct ∈ declarations := by
  induction grounded with
  | nil => simp at member
  | snoc earlier known ih =>
    apply mem_append_left
    rcases mem_append.mp member with old | new
    · exact ih old
    · rw [mem_singleton.mp new] at inside
      exact known struct inside

variable (digest) in
/-- The declaration whose type is found for a struct. -/
def firstLike (program : List Declaration) (struct : Declaration) : Option Declaration :=
  (requests program).find? fun other =>
    other.members.typeId digest == struct.members.typeId digest

/-- A type is found for every struct member. -/
theorem getType_struct (member : declaration ∈ requests program)
    (inside : struct ∈ declaration.members.structs) :
    ∃ found, firstLike digest program struct = some found ∧ found ∈ requests program ∧
      getType digest program (struct.members.typeId digest) = some (found.messageType digest) := by
  have present : (firstLike digest program struct).isSome := find?_isSome.mpr
    ⟨struct, (grounded_requests program).structs_mem member inside, beq_self_eq_true _⟩
  obtain ⟨found, first⟩ := Option.isSome_iff_exists.mp present
  refine ⟨found, first, mem_of_find?_eq_some first, ?_⟩
  rw [getType_eq, ← firstLike, first]
  rfl

variable (digest program) in
/-- The types that are found for the struct members are structs of the same layout. -/
def FindsAlike (declaration : Declaration) : Prop :=
  ∀ struct ∈ declaration.members.structs, ∀ found, firstLike digest program struct = some found →
    found.kind = .struct ∧ found.members.layout = struct.members.layout

variable (digest program) in
/-- The description of a declaration expands to its own layout. -/
def Described (declaration : Declaration) : Prop :=
  Expands digest (getType digest program) (declaration.messageType digest).fields
    declaration.members.described

theorem described_of_findsAlike (distinct : Function.Injective (Primitive.typeId digest))
    (small : ∀ declaration ∈ program, declaration.members.size < 0x2000)
    (counted : ∀ declaration ∈ requests program, declaration.members.Counted)
    (alike : ∀ declaration ∈ requests program, FindsAlike digest program declaration) :
    ∀ declaration ∈ requests program, Described digest program declaration := by
  apply requests_induction
  intro declaration member ih
  obtain ⟨few, lengths⟩ := counted declaration member
  rw [Described, fields_messageType few]
  apply expands_members distinct lengths
  · intro struct inside
    exact small_requests small struct
      ((grounded_requests program).structs_mem member inside)
  · intro struct inside
    obtain ⟨found, first, _, gets⟩ := getType_struct member inside
    obtain ⟨isStruct, same⟩ := alike declaration member struct inside found first
    refine ⟨_, gets, ?_, ?_⟩
    · rw [superSize_messageType, isStruct]
      rfl
    · have inner := ih struct inside found first
      rwa [Described, Members.described, same] at inner

/-- A description expands to some layout as soon as the types of its structs do, and
the layout is not too large to be printed. -/
theorem exists_layout (distinct : Function.Injective (Primitive.typeId digest))
    (small : ∀ declaration ∈ program, declaration.members.size < 0x2000)
    (member : declaration ∈ requests program)
    (structs : ∀ struct ∈ declaration.members.structs, ∀ found,
      firstLike digest program struct = some found → Described digest program found) :
    ∃ layout, Expands digest (getType digest program) (declaration.messageType digest).fields
      layout ∧ layout.size Primitive.size ≤ 2 ^ 62 := by
  have nested : ∀ struct ∈ declaration.members.structs,
      isPrimitive (struct.members.typeId digest) = false := by
    intro struct inside
    exact isPrimitive_members (small_requests small struct
      ((grounded_requests program).structs_mem member inside))
  obtain ⟨layout, expands, bound⟩ := @exists_expands digest _ (2 ^ 14)
    (by decide) (declaration.messageType digest).fields
    (by
      intro field inside primitive
      rcases type_of_mem_fields (mem_of_mem_take inside) with
        ⟨type, same⟩ | ⟨struct, within, same⟩
      · exact ⟨type, by rw [same, primitiveOf_typeId distinct]⟩
      · rw [same, nested struct within] at primitive
        cases primitive)
    (by
      intro field inside isStruct
      rcases type_of_mem_fields (mem_of_mem_take inside) with
        ⟨type, same⟩ | ⟨struct, within, same⟩
      · rw [same, isPrimitive_primitive] at isStruct
        cases isStruct
      · obtain ⟨found, first, known, gets⟩ := getType_struct member within
        refine ⟨_, _, by rw [same, gets], structs struct within found first, ?_⟩
        have size := small_requests small found known
        rw [superSize_messageType, Members.described, Layout.size_rename, Members.size_layout]
        cases found.kind <;> simp only [Kind.parentSize, messageSize] <;> omega)
  have few := (declaration.messageType digest).fieldsCounted
  exact ⟨layout, expands, by omega⟩

/-- The object that `Zero` leaves. -/
def zero : Object := ⟨⟨0, 0, by decide⟩, fun _ => 0⟩

theorem zero_fits (declaration : Declaration) : zero.Fits declaration := by
  intro leaf _
  change 0 < leaf.2.values
  cases leaf.2 <;> decide

theorem reachable_of_agrees (agrees : Agrees digest rendering program declaration) :
    declaration.Reachable := by
  obtain ⟨image, _, written, _⟩ := agrees.restores 0 0 zero zero (fun _ => 0)
    (zero_fits declaration)
  exact reachable_of_serialize written

/-- The layout that a description expands to is the declaration's own if the two agree. -/
theorem eq_described_of_agrees {layout : Layout (List UInt8) Primitive}
    (expands : Expands digest (getType digest program) (declaration.messageType digest).fields layout)
    (bound : layout.size Primitive.size ≤ 2 ^ 62) (small : declaration.Size < 2 ^ 62)
    (agrees : Agrees digest rendering program declaration) :
    layout = declaration.members.described := by
  have fits := zero_fits declaration
  obtain ⟨image, written, serialized⟩ := serialize_serialized (reachable_of_agrees agrees) 0 zero
    (fun _ => 0)
  obtain ⟨depth, room, prints⟩ := agrees.prints 0 _ _ image fits written (2 ^ 62) (by omega)
  obtain ⟨text, printed⟩ := @Expands.prints digest rendering _ image _ _
    expands [] true _
  obtain ⟨deeper, wider, _, run⟩ := prints_message printed
  have parent : declaration.kind.parentSize ≤ declaration.Size := Nat.le_add_left _ _
  have shown := run (max depth deeper) (by omega)
    ⟨[], max room wider, declaration.Size + 2 ^ 62, []⟩ (by dsimp only; omega)
    (by rw [superSize_messageType]; dsimp only; omega) (by dsimp only; omega)
  obtain ⟨cursor, same, left, visits⟩ := prints (max depth deeper) (by omega) (max room wider)
    (by omega)
  dsimp only at shown
  rw [shown] at same
  cases same
  dsimp only at left visits
  rw [visits_serialized fits serialized, nil_append]
    at visits
  rw [superSize_messageType] at left
  simp only [List.cons_append, cons.injEq, true_and] at visits
  obtain ⟨closes, _⟩ := Layout.visits_inj _ _ _ _ _ _ _ _ (Layout.ends_closed [])
    (Layout.ends_closed []) visits
  have own : declaration.members.described.close = declaration.members.described := by
    rw [Members.described, Layout.close_rename, Members.close_layout]
  have size : declaration.members.described.size Primitive.size = declaration.members.size := by
    rw [Members.described, Layout.size_rename, Members.size_layout]
  have total : declaration.Size = declaration.members.size + declaration.kind.parentSize := rfl
  rw [own] at closes
  rw [← closes]
  symm
  apply @Layout.close_eq_of_size _ _ _
  rw [closes, size]
  omega

theorem described_of_agrees (distinct : Function.Injective (Primitive.typeId digest))
    (small : ∀ declaration ∈ program, declaration.members.size < 0x2000)
    (agree : ∀ declaration ∈ requests program, Agrees digest rendering program declaration) :
    ∀ declaration ∈ requests program, Described digest program declaration := by
  apply requests_induction
  intro declaration member ih
  obtain ⟨layout, expands, bound⟩ := exists_layout distinct small member ih
  have size := small_requests small declaration member
  have little : declaration.Size < 2 ^ 62 := by
    rw [Declaration.Size]
    cases declaration.kind <;> simp only [Kind.parentSize, messageSize] <;> omega
  rwa [eq_described_of_agrees expands bound little (agree declaration member)] at expands

/-- Described declarations have room for their numbers and find alike structs. -/
theorem findsAlike_of_described
    (described : ∀ declaration ∈ requests program, Described digest program declaration) :
    ∀ declaration ∈ requests program,
      declaration.members.Counted ∧ FindsAlike digest program declaration := by
  intro declaration member
  obtain ⟨enough, lengths, resolved⟩ := members_of_expands (described declaration member)
  refine ⟨⟨Nat.lt_of_le_of_lt enough (Nat.mod_lt _ (Nat.two_pow_pos 16)), lengths⟩, ?_⟩
  intro struct inside found first
  obtain ⟨type, gets, noGap, inner⟩ := resolved struct inside
  obtain ⟨_, same, known, alsoGets⟩ := getType_struct member inside
  rw [first] at same
  cases same
  rw [gets] at alsoGets
  cases alsoGets
  rw [superSize_messageType] at noGap
  constructor
  · cases kind : found.kind with
    | message => simp [kind, Kind.parentSize, messageSize] at noGap
    | struct => rfl
  · exact Layout.rename_injective Word.bytes_injective
      (expands_unique (described found known) inner)

end Programs

/-- For all types of a program the generated codec is right and agrees with the
descriptions exactly if no leaf is hidden by the parameter of the codec, if the
numbers of the members and their lengths fit their descriptions, and if the types
found for struct members are structs of the same layout.

Proof: the types agree exactly if every description expands to the members of its
declaration, and it does exactly if the types it finds are alike. -/
theorem codec_agrees_with_types_iff (digest : List Char → BitVec 16)
    (rendering : Primitive → List UInt8 → List UInt8) (program : List Declaration)
    (distinct : Function.Injective (Primitive.typeId digest))
    (small : ∀ declaration ∈ program, declaration.members.size < 0x2000) :
    (∀ declaration ∈ requests program, Agrees digest rendering program declaration) ↔
      ∀ declaration ∈ requests program, declaration.Reachable ∧ declaration.members.Counted ∧
        FindsAlike digest program declaration := by
  constructor
  · intro agree declaration member
    obtain ⟨counted, alike⟩ := findsAlike_of_described (described_of_agrees distinct small agree)
      declaration member
    exact ⟨reachable_of_agrees (agree declaration member), counted, alike⟩
  · intro conditions declaration member
    apply agrees_of_expands (conditions declaration member).1
    exact described_of_findsAlike distinct small
      (fun other inside => (conditions other inside).2.1)
      (fun other inside => (conditions other inside).2.2) declaration member

/-- A digest that tells the primitive types apart: the sum of the characters. -/
def sumDigest (text : List Char) : BitVec 16 := BitVec.ofNat 16 (text.map Char.toNat).sum

theorem sumDigest_distinct : Function.Injective (Primitive.typeId sumDigest) := by
  have listed : ∀ first ∈ Primitive.all, ∀ second ∈ Primitive.all,
      first.typeId sumDigest = second.typeId sumDigest → first = second := by decide
  intro first second
  exact listed first first.mem_all second second.mem_all

/-- A message with an array of structs agrees with its description. -/
theorem codec_agrees_with_types_goal :
    Function.Injective (Primitive.typeId sumDigest) ∧
    ∀ declaration ∈ requests [leftGoal (some ⟨2, by decide⟩)],
      Agrees sumDigest (fun _ bytes => bytes) [leftGoal (some ⟨2, by decide⟩)] declaration := by
  refine ⟨sumDigest_distinct, (codec_agrees_with_types_iff sumDigest _ _
    sumDigest_distinct (by decide)).mpr ?_⟩
  intro declaration member
  have either : declaration = partOf .int32 ⟨"left".toList, by decide⟩ ∨
      declaration = leftGoal (some ⟨2, by decide⟩) := by
    simpa [requests, leftGoal, goalOf, Members.requests, partOf] using member
  rcases either with rfl | rfl
  · exact ⟨by unfold Declaration.Reachable; decide, by unfold Members.Counted; decide,
      by rintro _ ⟨⟩⟩
  · refine ⟨by unfold Declaration.Reachable; decide, by unfold Members.Counted; decide, ?_⟩
    intro struct inside found first
    have isPart : struct = partOf .int32 ⟨"left".toList, by decide⟩ := by
      simpa [leftGoal, goalOf, Members.structs, partOf] using inside
    have itself : firstLike sumDigest [leftGoal (some ⟨2, by decide⟩)]
        (partOf .int32 ⟨"left".toList, by decide⟩) =
          some (partOf .int32 ⟨"left".toList, by decide⟩) := by decide
    rw [isPart] at first
    cases first
    rw [isPart]
    exact ⟨rfl, rfl⟩

/-- A file with two structs that only differ in the name of an array, and a message
with a member of each. -/
def wheelSource : List Stmt :=
  [.package (simpleName ⟨"testing".toList, Eq.refl true⟩),
    .struct ⟨"Left".toList, by decide⟩
      [⟨simpleName ⟨"int32_t".toList, by decide⟩, ⟨"forwards".toList, by decide⟩,
        some ⟨2, by decide⟩⟩],
    .struct ⟨"Right".toList, by decide⟩
      [⟨simpleName ⟨"int32_t".toList, by decide⟩, ⟨"backwards".toList, by decide⟩,
        some ⟨2, by decide⟩⟩],
    .message ⟨"Wheels".toList, by decide⟩
      [⟨simpleName ⟨"Left".toList, by decide⟩, ⟨"left".toList, Eq.refl true⟩, none⟩,
        ⟨simpleName ⟨"Right".toList, by decide⟩, ⟨"right".toList, Eq.refl true⟩, none⟩]]

def leftWheel : Declaration where
  kind := .struct
  name := [⟨"testing".toList, Eq.refl true⟩, ⟨"Left".toList, by decide⟩]
  members := .element .int32 ⟨"forwards".toList, by decide⟩ (some ⟨2, by decide⟩) .nil

def rightWheel : Declaration where
  kind := .struct
  name := [⟨"testing".toList, Eq.refl true⟩, ⟨"Right".toList, by decide⟩]
  members := .element .int32 ⟨"backwards".toList, by decide⟩ (some ⟨2, by decide⟩) .nil

def wheels : Declaration where
  kind := .message
  name := [⟨"testing".toList, Eq.refl true⟩, ⟨"Wheels".toList, by decide⟩]
  members := .struct leftWheel.name leftWheel.members ⟨"left".toList, Eq.refl true⟩ none
    (.struct rightWheel.name rightWheel.members ⟨"right".toList, Eq.refl true⟩ none .nil)

theorem accepted_wheels : Accepted wheels := by
  have compiled : (compile wheelSource).map Globals.declarations =
      some [leftWheel, rightWheel, wheels] := by decide
  obtain ⟨globals, compiles, declared⟩ := Option.map_eq_some_iff.mp compiled
  exact ⟨_, globals, compiles, by simp [declared]⟩

/-- The right wheel of the message is printed with the description of the left one,
whatever the digest. -/
theorem codec_disagrees_with_wheels :
    Accepted wheels ∧ wheels.members.size < 0x2000 ∧ wheels.Reachable ∧
    ∀ (digest : List Char → BitVec 16) (rendering : Primitive → List UInt8 → List UInt8),
      Function.Injective (Primitive.typeId digest) →
      ¬ ∀ declaration ∈ requests [wheels], Agrees digest rendering [wheels] declaration := by
  refine ⟨accepted_wheels, by decide, by unfold Declaration.Reachable; decide, ?_⟩
  intro digest rendering distinct agree
  have same : leftWheel.members.typeId digest = rightWheel.members.typeId digest := by
    have text : leftWheel.members.simpleStr = rightWheel.members.simpleStr := by decide
    have size : leftWheel.members.size = rightWheel.members.size := by decide
    rw [Members.typeId, Members.typeId, Members.getTypeID, Members.getTypeID, text, size]
  have first : firstLike digest [wheels] rightWheel = some leftWheel :=
    find?_cons_of_pos (beq_iff_eq.mpr same)
  obtain ⟨_, alike⟩ := findsAlike_of_described
    (described_of_agrees distinct (by decide) agree) wheels (by decide)
  exact absurd (alike rightWheel (by decide) leftWheel first).2 (by decide)

end Miranda.QCompiler
