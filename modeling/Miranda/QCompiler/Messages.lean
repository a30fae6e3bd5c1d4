import Miranda.QCompiler.Codec

/-!
# Messages through the generated codec

A message object holds the time it was sent at and a number for every leaf field.
`Serialize` writes the time first, if the declaration is a message, and then makes
its calls; `Deserialize` reads in the same order. Because the calls tile the bytes
behind the parent class, no call destroys what an earlier one wrote, and reading
gives every field its number back.

The one thing that can go wrong is the name `buffer`. As soon as a leaf is reached
through a member of that name neither function has a result.
-/

namespace Miranda.QCompiler

open Bytes Layouts List

/-- `::aos::time::Time`. Setting the nanoseconds dies unless they are in range. -/
structure Time where
  sec : BitVec 32
  nsec : BitVec 32
  checked : nsec.toNat < 1000000000
  deriving DecidableEq

/-- An object of a generated class, with a value for every path to a leaf. -/
structure Object where
  sentTime : Time
  value : Path Word → Nat

namespace Primitive

/-- How many values the type has. -/
def values : Primitive → Nat
  | bool => 2
  | type => 256 ^ type.size

/-- `to_network`: the bytes of a value, most significant first. -/
def encode (type : Primitive) (value : Nat) : List UInt8 := bigEndian type.size value

/-- `to_host`. Any byte but zero is true. -/
def decode : Primitive → List UInt8 → Nat
  | bool, bytes => if fromBigEndian bytes = 0 then 0 else 1
  | _, bytes => fromBigEndian bytes

@[simp] theorem length_encode (type : Primitive) (value : Nat) :
    (type.encode value).length = type.size :=
  length_bigEndian _ _

/-- A value of the type survives the trip. -/
theorem decode_encode (type : Primitive) (value : Nat) (fits : value < type.values) :
    type.decode (type.encode value) = value := by
  have room : value < 256 ^ type.size := by
    cases type with
    | bool => exact Nat.lt_of_lt_of_le fits (by decide)
    | _ => exact fits
  have number := fromBigEndian_bigEndian _ value room
  cases type with
  | bool =>
    simp only [values] at fits
    simp only [decode, encode, number]
    split <;> omega
  | _ => exact number

end Primitive

/-- Within the emitted functions the first name of a field is the parameter's. -/
def captured : Path Word → Bool
  | (name, _) :: _ => name.text == "buffer".toList
  | [] => false

/-- A call of `to_network` in `Serialize`. -/
def toNetwork (object : Object) (image : Image) (call : Place Word Primitive) : Option Image :=
  if captured call.path then none
  else some (store image call.offset (call.kind.encode (object.value call.path)))

/-- A call of `to_host` in `Deserialize`. -/
def toHost (image : Image) (object : Object) (call : Place Word Primitive) : Option Object :=
  if captured call.path then none
  else some { object with
    value := Function.update object.value call.path
      (call.kind.decode (load image call.offset call.kind.size)) }

/-- `Message::Serialize`. -/
def Time.serialize (time : Time) (image : Image) : Image :=
  store (store image 0 (bigEndian 4 time.sec.toNat)) 4 (bigEndian 4 time.nsec.toNat)

/-- `Message::Deserialize`, without a result where the check of the time dies. -/
def Time.deserialize (image : Image) : Option Time :=
  let sec := BitVec.ofNat 32 (fromBigEndian (load image 0 4))
  let nsec := BitVec.ofNat 32 (fromBigEndian (load image 4 4))
  if checked : nsec.toNat < 1000000000 then some ⟨sec, nsec, checked⟩ else none

namespace Declaration

/-- `Serialize` of the generated class. -/
def serialize (declaration : Declaration) (counter : Nat) (object : Object) (buffer : Image) :
    Option Image :=
  let buffer := match declaration.kind with
    | .message => object.sentTime.serialize buffer
    | .struct => buffer
  ((declaration.createSerialize counter).calls fun _ => 0).foldlM (toNetwork object) buffer

/-- `Deserialize` of the generated class, into an object. -/
def deserialize (declaration : Declaration) (counter : Nat) (buffer : Image) (object : Object) :
    Option Object :=
  let object := match declaration.kind with
    | .message => (Time.deserialize buffer).map fun time => { object with sentTime := time }
    | .struct => some object
  object.bind (((declaration.createDeserialize counter).calls fun _ => 0).foldlM (toHost buffer))

end Declaration

/-- The indices of the elements of a member. -/
def elements : Option Length → List (Option Nat)
  | none => [none]
  | some length => (List.range length.value).map some

/-- The leaf fields in the order of the declaration, with their types. -/
def Members.leaves (path : Path Word) : Members → List (Path Word × Primitive)
  | .nil => []
  | .element type name length rest =>
    ((elements length).map fun element => (path ++ [(name, element)], type)) ++ rest.leaves path
  | .struct _ body name length rest =>
    ((elements length).flatMap fun element => body.leaves (path ++ [(name, element)])) ++
      rest.leaves path

namespace Declaration

/-- The leaf fields of a declaration. -/
def leaves (declaration : Declaration) : List (Path Word × Primitive) :=
  declaration.members.leaves []

/-- The places of the leaf fields in the serialized form. -/
def places (declaration : Declaration) : List (Place Word Primitive) :=
  declaration.members.layout.places Primitive.size [] declaration.kind.parentSize

end Declaration

/-- Every field holds a value of its type. -/
def Object.Fits (object : Object) (declaration : Declaration) : Prop :=
  ∀ leaf ∈ declaration.leaves, object.value leaf.1 < leaf.2.values

theorem elements_eq (length : Option Length) :
    elements length = (List.range (copies (count length))).map (index (count length)) := by
  cases length with
  | none => rfl
  | some length =>
    simp only [elements, count, copies_length]
    apply map_congr_left
    intro element _
    rw [index_length]

theorem Members.map_places (members : Members) (path : Path Word) (start : Nat) :
    (members.layout.places Primitive.size path start).map (fun place => (place.path, place.kind)) =
      members.leaves path := by
  induction members generalizing path start with
  | nil => rfl
  | element type name length rest ih =>
    simp only [layout, Layout.places, map_append, map_map, leaves, elements_eq,
      ih]
    rfl
  | struct type body name length rest bodyHypothesis restHypothesis =>
    simp only [layout, Layout.places, map_append, map_flatMap, leaves, elements_eq,
      flatMap_map, bodyHypothesis, restHypothesis]

section Calls

variable (declaration : Declaration)

theorem calls_serialize (counter : Nat) :
    (declaration.createSerialize counter).calls (fun _ => 0) = declaration.places := by
  rw [Declaration.createSerialize, calls_emit]
  · simp [Declaration.places, locate, Offset.value, Term.value]
  · simp [Below]

theorem calls_deserialize (counter : Nat) :
    (declaration.createDeserialize counter).calls (fun _ => 0) = declaration.places :=
  calls_serialize declaration counter

/-- The places are those of the leaves, in the order of the declaration. -/
theorem map_places_leaves :
    declaration.places.map (fun place => (place.path, place.kind)) = declaration.leaves :=
  declaration.members.map_places [] _

/-- The places tile the bytes from the size of the parent class to the size. -/
theorem tiles_declaration :
    Tiles declaration.kind.parentSize declaration.Size
      (declaration.places.map fun place => (place.offset, place.kind.size)) := by
  rw [Declaration.Size, Nat.add_comm, ← Members.size_layout]
  exact declaration.members.layout.tiles_places declaration.members.close_layout []
    _

theorem mem_leaves_of_place {place : Place Word Primitive} (member : place ∈ declaration.places) :
    (place.path, place.kind) ∈ declaration.leaves := by
  rw [← map_places_leaves]
  exact mem_map_of_mem member

end Calls

/-- What the buffer shows after `Serialize`: every leaf at its place, and the time a
message was sent at before them. -/
structure Serialized (declaration : Declaration) (object : Object) (image : Image) : Prop where
  leaves : ∀ place ∈ declaration.places,
    load image place.offset place.kind.size = place.kind.encode (object.value place.path)
  time : declaration.kind = .message → Time.deserialize image = some object.sentTime

variable {buffer image : Image} {calls : List (Place Word Primitive)} {start stop : Nat}
  {object : Object} {declaration : Declaration}

/-- Calls only write behind where they start. -/
theorem foldlM_toNetwork_before
    (tiles : Tiles start stop (calls.map fun call => (call.offset, call.kind.size)))
    (written : calls.foldlM (toNetwork object) buffer = some image) {address length : Nat}
    (before : address + length ≤ start) :
    load image address length = load buffer address length := by
  induction calls generalizing start buffer with
  | nil =>
    cases written
    rfl
  | cons call rest ih =>
    obtain ⟨begins, later⟩ := tiles
    obtain ⟨next, stored, others⟩ := Option.bind_eq_some_iff.mp written
    simp only [toNetwork] at stored
    split at stored
    · cases stored
    · cases stored
      rw [ih later others (by omega)]
      exact load_store_disjoint (.inl (by omega))

/-- Every call is visible at its place in the end. -/
theorem foldlM_toNetwork_leaves
    (tiles : Tiles start stop (calls.map fun call => (call.offset, call.kind.size)))
    (written : calls.foldlM (toNetwork object) buffer = some image) :
    ∀ call ∈ calls,
      load image call.offset call.kind.size = call.kind.encode (object.value call.path) := by
  induction calls generalizing start buffer with
  | nil => simp
  | cons call rest ih =>
    obtain ⟨begins, later⟩ := tiles
    obtain ⟨next, stored, others⟩ := Option.bind_eq_some_iff.mp written
    intro other member
    cases member with
    | tail _ member => exact ih later others other member
    | head =>
      simp only [toNetwork] at stored
      split at stored
      · cases stored
      · cases stored
        rw [foldlM_toNetwork_before later others (by omega)]
        have kept := load_store buffer call.offset (call.kind.encode (object.value call.path))
        rwa [Primitive.length_encode] at kept

/-- Making the calls succeeds exactly if none of the fields is captured. -/
theorem foldlM_toNetwork_isSome (object : Object) (calls : List (Place Word Primitive))
    (buffer : Image) :
    (calls.foldlM (toNetwork object) buffer).isSome = true ↔
      ∀ call ∈ calls, captured call.path = false := by
  induction calls generalizing buffer with
  | nil => simp
  | cons call rest ih =>
    rw [foldlM_cons, toNetwork]
    cases hidden : captured _ with
    | true => simp [hidden]
    | false => simpa [hidden] using ih _

theorem ofNat_fromBigEndian_word (word : BitVec 32) :
    BitVec.ofNat 32 (fromBigEndian (bigEndian 4 word.toNat)) = word := by
  rw [fromBigEndian_bigEndian 4 _ (by have := word.isLt; omega)]
  exact BitVec.ofNat_toNat 32 word

/-- A time is read back from the bytes that show it. -/
theorem Time.deserialize_eq {time : Time} (sec : load image 0 4 = bigEndian 4 time.sec.toNat)
    (nsec : load image 4 4 = bigEndian 4 time.nsec.toNat) :
    Time.deserialize image = some time := by
  simp only [Time.deserialize, sec, nsec, ofNat_fromBigEndian_word]
  exact dif_pos time.checked

theorem Time.load_serialize (time : Time) (buffer : Image) :
    load (time.serialize buffer) 0 4 = bigEndian 4 time.sec.toNat ∧
      load (time.serialize buffer) 4 4 = bigEndian 4 time.nsec.toNat := by
  have first := load_store buffer 0 (bigEndian 4 time.sec.toNat)
  have second := load_store (store buffer 0 (bigEndian 4 time.sec.toNat)) 4
    (bigEndian 4 time.nsec.toNat)
  rw [length_bigEndian] at first second
  constructor
  · rw [Time.serialize, load_store_disjoint (.inl (by decide)), first]
  · exact second

/-- No leaf field is hidden by the parameter of the emitted functions. -/
def Declaration.Reachable (declaration : Declaration) : Prop :=
  ∀ leaf ∈ declaration.leaves, captured leaf.1 = false

theorem Declaration.Reachable.places (reachable : declaration.Reachable) :
    ∀ place ∈ declaration.places, captured place.path = false := by
  intro place member
  exact reachable _ (mem_leaves_of_place declaration member)

/-- `Serialize` has a result only if every leaf field can be reached. -/
theorem reachable_of_serialize {counter : Nat}
    (serialized : declaration.serialize counter object buffer = some image) :
    declaration.Reachable := by
  rw [Declaration.serialize, calls_serialize] at serialized
  have every := (foldlM_toNetwork_isSome object _ _).mp
    (by rw [serialized]; rfl)
  intro leaf member
  rw [← map_places_leaves] at member
  obtain ⟨place, inside, rfl⟩ := mem_map.mp member
  exact every place inside

/-- Then it leaves every value at its place. -/
theorem serialize_serialized (reachable : declaration.Reachable) (counter : Nat) (object : Object)
    (buffer : Image) :
    ∃ image, declaration.serialize counter object buffer = some image ∧
      Serialized declaration object image := by
  have some_image := (foldlM_toNetwork_isSome object _
    (match declaration.kind with
      | .message => object.sentTime.serialize buffer
      | .struct => buffer)).mpr reachable.places
  obtain ⟨image, written⟩ := Option.isSome_iff_exists.mp some_image
  have tiles := tiles_declaration declaration
  refine ⟨image, ?_, foldlM_toNetwork_leaves tiles written, ?_⟩
  · rw [Declaration.serialize, calls_serialize]
    exact written
  · intro isMessage
    rw [isMessage] at written tiles
    obtain ⟨sec, nsec⟩ := object.sentTime.load_serialize buffer
    apply Time.deserialize_eq
    · rw [foldlM_toNetwork_before tiles written (by decide), sec]
    · rw [foldlM_toNetwork_before tiles written (by decide), nsec]

/-- A field is right if it is right before or if a call is still to come for it. -/
theorem foldlM_toHost_value {value : Path Word → Nat}
    (reachable : ∀ call ∈ calls, captured call.path = false)
    (read : ∀ call ∈ calls, call.kind.decode (load image call.offset call.kind.size) =
      value call.path)
    (object : Object) :
    ∃ restored, calls.foldlM (toHost image) object = some restored ∧
      restored.sentTime = object.sentTime ∧
      ∀ path, object.value path = value path ∨ (∃ call ∈ calls, call.path = path) →
        restored.value path = value path := by
  induction calls generalizing object with
  | nil =>
    refine ⟨object, rfl, rfl, ?_⟩
    intro path settled
    simpa using settled
  | cons call rest ih =>
    have free := reachable call mem_cons_self
    have reads := read call mem_cons_self
    obtain ⟨restored, others, time, right⟩ := ih
      (fun other member => reachable other (mem_cons_of_mem _ member))
      (fun other member => read other (mem_cons_of_mem _ member))
      { object with value := Function.update _ _ _ }
    refine ⟨restored, ?_, time, ?_⟩
    · rw [foldlM_cons]
      simp only [toHost, free, reads]
      exact others
    · intro path settled
      apply right
      dsimp only
      by_cases same : path = call.path
      · left
        rw [same, Function.update_self]
      · rw [Function.update_of_ne same]
        apply settled.imp id
        rintro ⟨other, member, rfl⟩
        exact ⟨other, (mem_cons.mp member).resolve_left (fun isCall => same (by rw [isCall])),
          rfl⟩

/-- `Deserialize` of what `Serialize` wrote restores the time and every leaf field. -/
theorem deserialize_serialized (reachable : declaration.Reachable) (fits : object.Fits declaration)
    (serialized : Serialized declaration object image) (counter : Nat) (into : Object) :
    ∃ restored, declaration.deserialize counter image into = some restored ∧
      (declaration.kind = .message → restored.sentTime = object.sentTime) ∧
      ∀ leaf ∈ declaration.leaves, restored.value leaf.1 = object.value leaf.1 := by
  have read : ∀ place ∈ declaration.places,
      place.kind.decode (load image place.offset place.kind.size) = object.value place.path := by
    intro place member
    rw [serialized.leaves place member]
    exact place.kind.decode_encode _ (fits _ (mem_leaves_of_place declaration member))
  have settled : ∀ leaf ∈ declaration.leaves, ∃ place ∈ declaration.places,
      place.path = leaf.1 := by
    intro leaf member
    rw [← map_places_leaves] at member
    obtain ⟨place, inside, rfl⟩ := mem_map.mp member
    exact ⟨place, inside, rfl⟩
  cases kind : declaration.kind with
  | message =>
    obtain ⟨restored, calls, time, right⟩ := foldlM_toHost_value reachable.places read
      { into with sentTime := object.sentTime }
    refine ⟨restored, ?_, fun _ => time, fun leaf member => right _ (.inr (settled leaf member))⟩
    simp only [Declaration.deserialize, kind, serialized.time kind, calls_deserialize]
    exact calls
  | struct =>
    obtain ⟨restored, calls, _, right⟩ := foldlM_toHost_value reachable.places read into
    refine ⟨restored, ?_, nofun, fun leaf member => right _ (.inr (settled leaf member))⟩
    simp only [Declaration.deserialize, kind, calls_deserialize]
    exact calls

end Miranda.QCompiler
