import Miranda.QueueTypes.Sharing
import Miranda.Lib.Runs

/-!
# Types are shared with their parts

The invariant follows the calls a thread is in. A call that visits its fields has its own
type in the list, and of the fields it has visited everything they contain; a call that
waits for another one waits for the type of the field it visits. So a call that gets to its
end returns with everything in the list. A call that returns early relies on what it finds.

What it finds is whole because a type in the list lacks parts only while a call is adding
them. Such a call of another thread is excluded, and one of the same thread is about a type
that contains the one looked for, so it is not contained in it.
-/

namespace Miranda.QueueTypes

open Runs LogFile List Option

variable {θ π : Type}

/-! ## The invariant -/

variable {ids more : List TypeId} {types : TypeCache} {typeId : TypeId} {type : MessageType}
  {below : List Frame} {inner : TypeId} {stack : List Frame} {event : SharingEvent θ π}
  {events : List (SharingEvent θ π)}

theorem Whole.mono (whole : Whole types ids typeId) (grows : ids ⊆ more) :
    Whole types more typeId :=
  ⟨grows whole.1, fun inner contains => grows (whole.2 inner contains)⟩

/-- The struct types of these fields are in the list with everything they contain. -/
def Visited (types : TypeCache) (ids : List TypeId) (fields : List Field) : Prop :=
  ∀ field ∈ fields, isPrimitive field.type = false → Whole types ids field.type

theorem Visited.mono {fields : List Field} (visited : Visited types ids fields)
    (grows : ids ⊆ more) : Visited types more fields :=
  fun field member struct => (visited field member struct).mono grows

/-- With its fields a type is whole. -/
theorem Visited.whole (visited : Visited types ids type.fields) (member : typeId ∈ ids)
    (found : types.get typeId = some type) : Whole types ids typeId := by
  refine ⟨member, ?_⟩
  intro inner contains
  cases contains with
  | self struct => exact member
  | nested again inside contains =>
    obtain rfl := some.inj (found.symm.trans again)
    exact (visited _ inside contains.struct).2 inner contains

/-- The calls that wait for a call about `inner` to return. -/
def Waiting (types : TypeCache) (ids : List TypeId) (inner : TypeId) : List Frame → Prop
  | [] => True
  | .entering _ :: _ => False
  | .visiting typeId rest :: below =>
    (∃ type done field, typeId ∈ ids ∧ types.get typeId = some type ∧
      type.fields = done ++ field :: rest ∧ field.type = inner ∧ Visited types ids done) ∧
      Waiting types ids typeId below

/-- The calls a thread is in. -/
def Calls (types : TypeCache) (ids : List TypeId) : List Frame → Prop
  | [] => True
  | .entering typeId :: below => Waiting types ids typeId below
  | .visiting typeId rest :: below =>
    (∃ type done, typeId ∈ ids ∧ types.get typeId = some type ∧
      type.fields = done ++ rest ∧ Visited types ids done) ∧ Waiting types ids typeId below

theorem Waiting.mono (waiting : Waiting types ids inner below) (grows : ids ⊆ more) :
    Waiting types more inner below := by
  induction below generalizing inner with
  | nil => exact trivial
  | cons frame below ih =>
    cases frame with
    | entering typeId => exact waiting
    | visiting typeId rest =>
      obtain ⟨⟨type, done, field, member, found, fields, same, visited⟩, under⟩ := waiting
      exact ⟨⟨type, done, field, grows member, found, fields, same, visited.mono grows⟩,
        ih under⟩

theorem Calls.mono (calls : Calls types ids stack) (grows : ids ⊆ more) :
    Calls types more stack := by
  cases stack with
  | nil => exact trivial
  | cons frame below =>
    cases frame with
    | entering typeId => exact .mono calls grows
    | visiting typeId rest =>
      obtain ⟨⟨type, done, member, found, fields, visited⟩, under⟩ := calls
      exact ⟨⟨type, done, grows member, found, fields, visited.mono grows⟩, under.mono grows⟩

/-- A call returns with its type whole, and the call below it goes on with the next field. -/
theorem Waiting.returns (waiting : Waiting types ids inner below) (whole : Whole types ids inner) :
    Calls types ids below := by
  cases below with
  | nil => exact trivial
  | cons frame below =>
    cases frame with
    | entering typeId => exact waiting.elim
    | visiting typeId rest =>
      obtain ⟨⟨type, done, field, member, found, fields, rfl, visited⟩, under⟩ := waiting
      refine ⟨⟨type, done ++ [field], member, found, by simp [fields], ?_⟩, under⟩
      exact forall_mem_append.mpr ⟨visited, forall_mem_singleton.mpr fun _ => whole⟩

structure Sound (types : TypeCache) (sharing : Sharing θ π) : Prop where
  complete : Complete types sharing
  /-- What a cache marks as being in the list is there. -/
  marked : ∀ process typeId, sharing.caches process typeId = some true → typeId ∈ sharing.ids
  calls : ∀ thread, Calls types sharing.ids (sharing.threads thread)

variable {types : TypeCache} {owner : θ → π} {sharing next : Sharing θ π} {process : π}
  {thread : θ} {typeId : TypeId} {below : List Frame}

theorem sound_initial (types : TypeCache) : Sound types ({} : Sharing θ π) where
  complete := ⟨nofun, nodup_nil⟩
  marked := nofun
  calls _ := trivial

theorem Sound.cache [DecidableEq π] (sound : Sound types sharing) {inShm : Bool}
    (member : inShm = true → typeId ∈ sharing.ids) :
    Sound types (sharing.cache process typeId inShm) where
  complete := ⟨sound.complete.whole, sound.complete.distinct⟩
  marked other otherId marked := by
    by_cases same : other = process ∧ otherId = typeId
    · obtain ⟨rfl, rfl⟩ := same
      exact member (by simpa [Sharing.cache] using marked)
    · apply sound.marked other otherId
      by_cases own : other = process
      · subst own
        have differs : otherId ≠ typeId := fun eq => same ⟨rfl, eq⟩
        simpa [Sharing.cache, differs] using marked
      · simpa [Sharing.cache, own] using marked
  calls := sound.calls

theorem Sound.setStack [DecidableEq θ] (sound : Sound types sharing)
    (calls : Calls types sharing.ids stack) : Sound types (sharing.setStack thread stack) where
  complete := ⟨sound.complete.whole, sound.complete.distinct⟩
  marked := sound.marked
  calls := (Function.forall_update_iff _ _).mpr ⟨calls, fun other _ => sound.calls other⟩

theorem Sound.finish [DecidableEq θ] (sound : Sound types sharing)
    (whole : Whole types sharing.ids typeId) (waiting : Waiting types sharing.ids typeId below) :
    Sound types (sharing.finish thread typeId below) where
  complete :=
    ⟨forall_mem_append.mpr ⟨sound.complete.whole, forall_mem_singleton.mpr whole⟩,
      sound.complete.distinct⟩
  marked := sound.marked
  calls := (sound.setStack (waiting.returns whole)).calls

theorem ids_grow (sharing : Sharing θ π) (type : MessageType) :
    sharing.ids ⊆ (sharing.shared ++ [type]).map MessageType.id := by
  rw [map_append]
  exact subset_append_left _ _

/-- A type is appended to the list. -/
theorem Sound.publish (sound : Sound types sharing) (found : types.get typeId = some type)
    (absent : typeId ∉ sharing.ids) :
    Sound types { sharing with shared := sharing.shared ++ [type] } := by
  have ids : (sharing.shared ++ [type]).map MessageType.id = sharing.ids ++ [typeId] := by
    rw [map_append, ← TypeCache.get_id found]
    rfl
  have grows := ids_grow sharing type
  exact
    { complete := by
        refine ⟨fun other member => (sound.complete.whole other member).mono grows, ?_⟩
        rw [Sharing.ids, ids]
        exact sound.complete.distinct.append (nodup_singleton _) (by simpa using absent)
      marked := fun process other marked => grows (sound.marked process other marked)
      calls := fun thread => (sound.calls thread).mono grows }

/-! ## Calls that visit their fields -/

theorem Sound.visit [DecidableEq θ] (sound : Sound types sharing) {rest : List Field}
    (calls : Calls types sharing.ids (.visiting typeId rest :: below)) :
    Sound types (sharing.visit thread typeId below rest) := by
  obtain ⟨⟨type, done, member, found, fields, visited⟩, waiting⟩ := calls
  cases rest with
  | nil =>
    rw [append_nil] at fields
    rw [← fields] at visited
    exact sound.finish (visited.whole member found) waiting
  | cons field rest =>
    rw [Sharing.visit]
    split
    · next primitive =>
      apply sound.setStack
      refine ⟨⟨type, done ++ [field], member, found, by simp [fields], ?_⟩, waiting⟩
      refine forall_mem_append.mpr ⟨visited, forall_mem_singleton.mpr fun struct => ?_⟩
      rw [primitive] at struct
      cases struct
    · apply sound.setStack
      exact ⟨⟨type, done, field, member, found, fields, rfl, visited⟩, waiting⟩

/-- The calls of a thread whose stack is known. -/
theorem Sound.callsOf (sound : Sound types sharing) (same : sharing.threads thread = stack) :
    Calls types sharing.ids stack :=
  same ▸ sound.calls thread

/-- A call that has appended its type starts to visit the fields. -/
theorem Sound.published [DecidableEq θ] (sound : Sound types sharing)
    (known : types.get typeId = some type) (absent : typeId ∉ sharing.ids)
    (waiting : Waiting types sharing.ids typeId below) :
    Sound types ({ sharing with shared := sharing.shared ++ [type] }.setStack thread
      (.visiting typeId type.fields :: below)) := by
  apply (sound.publish known absent).setStack
  refine ⟨⟨type, [], ?_, known, rfl, nofun⟩, waiting.mono (ids_grow sharing type)⟩
  simp [Sharing.ids, ← TypeCache.get_id known]

theorem visit_shared [DecidableEq θ] (sharing : Sharing θ π) (thread : θ) (typeId : TypeId)
    (below : List Frame) (rest : List Field) :
    (sharing.visit thread typeId below rest).shared = sharing.shared := by
  cases rest with
  | nil => rfl
  | cons field rest =>
    rw [Sharing.visit]
    split <;> rfl

/-! ## Calls in progress -/

/-- The calls that wait are about types further on in the dictionary. -/
theorem Waiting.place_lt {rest : List Field} (waiting : Waiting types ids inner below)
    (struct : isPrimitive inner = false) (member : .visiting typeId rest ∈ below) :
    place types inner < place types typeId := by
  induction below generalizing inner with
  | nil => cases member
  | cons frame below ih =>
    cases frame with
    | entering other => exact waiting.elim
    | visiting other left =>
      obtain ⟨⟨type, done, field, _, found, fields, rfl, _⟩, under⟩ := waiting
      have next := place_field found (by simp [fields]) struct
      rcases mem_cons.mp member with same | deeper
      · cases same
        exact next
      · exact next.trans (ih under (TypeCache.get_struct found) deeper)

/-- While a type in the list lacks the type of a field, a call is adding it. -/
def Tended (types : TypeCache) (sharing : Sharing θ π) : Prop :=
  ∀ typeId ∈ sharing.ids, (∃ thread, sharing.Adding thread typeId) ∨
    HasParts types sharing.ids typeId

/-- A thread may leave the calls that add fields when all fields of the type are there. -/
theorem Tended.setStack [DecidableEq θ] (tended : Tended types sharing)
    (keeps : ∀ typeId rest, .visiting typeId rest ∈ sharing.threads thread →
      (∃ rest, .visiting typeId rest ∈ stack) ∨ HasParts types sharing.ids typeId) :
    Tended types (sharing.setStack thread stack) := by
  intro typeId member
  rcases tended typeId member with ⟨other, rest, adding⟩ | parts
  · by_cases own : other = thread
    · subst own
      refine (keeps typeId rest adding).imp_left ?_
      rintro ⟨left, still⟩
      exact ⟨other, left, by simpa [Sharing.setStack] using still⟩
    · exact .inl ⟨other, rest, by simpa [Sharing.setStack, own] using adding⟩
  · exact .inr parts

/-- A call that returns at once was adding nothing. -/
theorem Tended.leave [DecidableEq θ] (tended : Tended types sharing)
    (same : sharing.threads thread = .entering typeId :: below) :
    Tended types (sharing.setStack thread below) := by
  refine tended.setStack fun other rest adding => .inl ⟨rest, ?_⟩
  simpa [same] using adding

/-- The type that is appended lacks its parts, and the call goes on with them. -/
theorem Tended.published [DecidableEq θ] (tended : Tended types sharing)
    (same : sharing.threads thread = .entering typeId :: below)
    (known : types.get typeId = some type) :
    Tended types ({ sharing with shared := sharing.shared ++ [type] }.setStack thread
      (.visiting typeId type.fields :: below)) := by
  intro other member
  have grows := ids_grow sharing type
  rw [Sharing.ids, Sharing.setStack, map_append] at member
  rcases mem_append.mp member with old | new
  · rcases tended.leave same other old with ⟨owner, rest, adding⟩ | parts
    · refine .inl ⟨owner, rest, ?_⟩
      by_cases own : owner = thread
      · subst own
        simpa [Sharing.setStack] using .inr (by simpa [Sharing.setStack] using adding)
      · simpa [Sharing.setStack, own] using adding
    · exact .inr (parts.mono grows)
  · have isNew : other = typeId := by simpa [TypeCache.get_id known] using new
    exact .inl ⟨thread, type.fields, by simp [isNew, Sharing.setStack]⟩

/-- A call returns from its fields when it has visited all of them. -/
theorem Tended.visit [DecidableEq θ] (tended : Tended types sharing) {rest : List Field}
    (same : sharing.threads thread = .visiting typeId rest :: below)
    (calls : Calls types sharing.ids (.visiting typeId rest :: below)) :
    Tended types (sharing.visit thread typeId below rest) := by
  cases rest with
  | nil =>
    obtain ⟨⟨type, done, _, found, fields, visited⟩, _⟩ := calls
    have leaves : Tended types (sharing.setStack thread below) := by
      refine tended.setStack fun other left adding => ?_
      rw [same] at adding
      rcases mem_cons.mp adding with own | deeper
      · cases own
        refine .inr fun again foundAgain field member struct => ?_
        obtain rfl := some.inj (found.symm.trans foundAgain)
        rw [append_nil] at fields
        exact (visited field (fields ▸ member) struct).1
      · exact .inl ⟨left, deeper⟩
    exact leaves
  | cons field rest =>
    have keeps : ∀ other left, .visiting other left ∈ sharing.threads thread →
        ∃ left, .visiting other left ∈ Frame.visiting typeId rest :: below := by
      intro other left adding
      rw [same] at adding
      rcases mem_cons.mp adding with own | deeper
      · cases own
        exact ⟨rest, mem_cons_self⟩
      · exact ⟨left, mem_cons_of_mem _ deeper⟩
    rw [Sharing.visit]
    split
    · exact tended.setStack fun other left adding => .inl (keeps other left adding)
    · refine tended.setStack fun other left adding => .inl ?_
      obtain ⟨left, still⟩ := keeps other left adding
      exact ⟨left, mem_cons_of_mem _ still⟩

/-- A call that finds its type in the list, or marked as being there, finds everything the type
contains there as well. -/
def Calm (types : TypeCache) (owner : θ → π) (sharing : Sharing θ π) :
    SharingEvent θ π → Prop
  | .enter thread => ∀ typeId below, sharing.threads thread = .entering typeId :: below →
      sharing.caches (owner thread) typeId = some true ∨ typeId ∈ sharing.ids →
        Whole types sharing.ids typeId
  | _ => True

/-- Where a call finds its type and no other thread is adding the parts, they are there. -/
theorem calm_of_quiet (sound : Sound types sharing) (tended : Tended types sharing)
    (quiet : Quiet types sharing event) : Calm types owner sharing event := by
  cases event with
  | enter thread =>
    intro typeId below stack early
    have listed : typeId ∈ sharing.ids := early.elim (sound.marked _ _) id
    refine ⟨listed, fun inner contains => contains.listed listed ?_⟩
    intro middle there within
    rcases tended middle there with ⟨other, rest, adding⟩ | parts
    · by_cases own : other = thread
      · -- the thread's own calls are about types that contain the one it looks for
        rw [own, stack] at adding
        have waits := (sound.callsOf stack).place_lt contains.struct
          ((mem_cons.mp adding).resolve_left (by rintro ⟨⟩))
        exact absurd within.place_le (Nat.not_le.mpr waits)
      · exact absurd ⟨rest, adding⟩ (quiet typeId below stack other own middle within)
    · exact parts
  | _ => exact trivial

/-! ## Steps -/

variable [DecidableEq θ] [DecidableEq π]

/-- What a step does. -/
inductive SharingMove (types : TypeCache) (owner : θ → π) (sharing : Sharing θ π) :
    SharingEvent θ π → Sharing θ π → Prop where
  | alreadyAdded (process : π) (typeId : TypeId) :
      SharingMove types owner sharing (.add process typeId) sharing
  | added (process : π) (typeId : TypeId) :
      SharingMove types owner sharing (.add process typeId) (sharing.cache process typeId false)
  | alreadyCached (process : π) (typeId : TypeId) :
      SharingMove types owner sharing (.get process typeId) sharing
  | fetched (process : π) {typeId : TypeId} (member : typeId ∈ sharing.ids) :
      SharingMove types owner sharing (.get process typeId) (sharing.cache process typeId true)
  | called {thread : θ} (typeId : TypeId) (idle : sharing.threads thread = []) :
      SharingMove types owner sharing (.addShm thread typeId)
        (sharing.setStack thread [.entering typeId])
  | marked {thread : θ} {typeId : TypeId} {below : List Frame}
      (stack : sharing.threads thread = .entering typeId :: below)
      (flag : sharing.caches (owner thread) typeId = some true) :
      SharingMove types owner sharing (.enter thread) (sharing.finish thread typeId below)
  | found {thread : θ} {typeId : TypeId} {below : List Frame}
      (stack : sharing.threads thread = .entering typeId :: below)
      (member : typeId ∈ sharing.ids) :
      SharingMove types owner sharing (.enter thread)
        ((sharing.cache (owner thread) typeId true).finish thread typeId below)
  | published {thread : θ} {typeId : TypeId} {below : List Frame} {type : MessageType}
      (stack : sharing.threads thread = .entering typeId :: below)
      (known : types.get typeId = some type) (absent : typeId ∉ sharing.ids)
      (unmarked : sharing.caches (owner thread) typeId = some false) :
      SharingMove types owner sharing (.enter thread)
        ({ sharing with shared := sharing.shared ++ [type] }.setStack thread
          (.visiting typeId type.fields :: below))
  | visited {thread : θ} {typeId : TypeId} {rest : List Field} {below : List Frame}
      (stack : sharing.threads thread = .visiting typeId rest :: below) :
      SharingMove types owner sharing (.visit thread) (sharing.visit thread typeId below rest)

theorem enter_moves (stack : sharing.threads thread = .entering typeId :: below)
    (entered : sharing.enter types (owner thread) thread typeId below = some next) :
    SharingMove types owner sharing (.enter thread) next := by
  rw [Sharing.enter] at entered
  split at entered
  · next flag _ =>
    obtain rfl := some.inj entered
    exact .marked stack flag
  · next type unmarked known =>
    split at entered
    · next member =>
      obtain rfl := some.inj entered
      exact .found stack member
    · next absent =>
      split at entered
      · obtain rfl := some.inj entered
        exact .published stack known absent unmarked
      · cases entered
  · cases entered

theorem step_moves (taken : sharing.step types owner event = some next) :
    SharingMove types owner sharing event next := by
  cases event with
  | add process typeId =>
    simp only [Sharing.step, Sharing.add] at taken
    split at taken
    · split at taken
      · obtain rfl := some.inj taken
        exact .added process typeId
      · cases taken
    · obtain rfl := some.inj taken
      exact .alreadyAdded process typeId
    · cases taken
  | get process typeId =>
    simp only [Sharing.step, Sharing.get] at taken
    split at taken
    · obtain rfl := some.inj taken
      exact .alreadyCached process typeId
    · split at taken
      · next member =>
        obtain rfl := some.inj taken
        exact .fetched process member
      · cases taken
  | addShm thread typeId =>
    simp only [Sharing.step] at taken
    split at taken
    · next idle =>
      obtain rfl := some.inj taken
      exact .called typeId idle
    · cases taken
  | enter thread =>
    simp only [Sharing.step] at taken
    split at taken
    · next typeId below stack => exact enter_moves stack taken
    · cases taken
  | visit thread =>
    simp only [Sharing.step] at taken
    split at taken
    · next typeId rest below stack =>
      obtain rfl := some.inj taken
      exact .visited stack
    · cases taken

theorem Sound.step (sound : Sound types sharing) (calm : Calm types owner sharing event)
    (taken : sharing.step types owner event = some next) : Sound types next := by
  cases step_moves taken with
  | alreadyAdded | alreadyCached => exact sound
  | added => exact sound.cache nofun
  | fetched process member => exact sound.cache fun _ => member
  | called => exact sound.setStack trivial
  | marked stack flag => exact sound.finish (calm _ _ stack (.inl flag)) (sound.callsOf stack)
  | found stack member =>
    exact (sound.cache fun _ => member).finish (calm _ _ stack (.inr member))
      (sound.callsOf stack)
  | published stack known absent _ => exact sound.published known absent (sound.callsOf stack)
  | visited stack => exact sound.visit (sound.callsOf stack)

theorem Tended.step (tended : Tended types sharing) (sound : Sound types sharing)
    (taken : sharing.step types owner event = some next) : Tended types next := by
  cases step_moves taken with
  | alreadyAdded | alreadyCached | added | fetched => exact tended
  | called typeId idle => exact tended.setStack fun other rest adding => by simp [idle] at adding
  | marked stack flag => exact tended.leave stack
  | found stack member => exact tended.leave stack
  | published stack known _ _ => exact tended.published stack known
  | visited stack => exact tended.visit stack (sound.callsOf stack)

/-- In a run where no call looks for its type while another thread is adding the fields of this
type, or of one it contains, every call has returned with its type and all parts in the list,
and the list has no duplicates.

Proof: by induction on the run. The calls in progress are sound and a type without its parts
is tended, so by `calm_of_quiet` what a call finds in the list is whole, and `Sound.step`
keeps the invariant. -/
theorem shared_types_complete (run : Run (QuietStep types owner) {} events sharing) :
    Complete types sharing := by
  have invariant : Sound types sharing ∧ Tended types sharing := by
    refine @Run.invariant _ _ _ (fun sharing => Sound types sharing ∧ Tended types sharing)
      _ _ _ run ⟨sound_initial types, nofun⟩ ?_
    rintro before event after ⟨sound, tended⟩ ⟨quiet, taken⟩
    exact ⟨sound.step (calm_of_quiet sound tended quiet) taken, tended.step sound taken⟩
  exact invariant.1.complete

/-! ## Duplicates -/

/-- A step appends at most one type, which was not in the list. -/
theorem step_shared (taken : sharing.step types owner event = some next) :
    next.shared = sharing.shared ∨
      ∃ type, next.shared = sharing.shared ++ [type] ∧ type.id ∉ sharing.ids := by
  cases step_moves taken with
  | published _ known absent _ =>
    rw [← TypeCache.get_id known] at absent
    exact .inr ⟨_, rfl, absent⟩
  | visited _ => exact .inl (visit_shared sharing _ _ _ _)
  | _ => exact .inl rfl

/-- No run puts a type into the list twice, whatever its calls find.

Proof: a type is appended by the step that did not find it (`step_shared`). -/
theorem shared_ids_distinct
    (run : Run (fun before event after => before.step types owner event = some after) {} events
      sharing) : sharing.ids.Nodup := by
  refine @Run.invariant _ _ _ (fun sharing => sharing.ids.Nodup) _ _ _ run nodup_nil ?_
  intro before event after distinct taken
  rcases step_shared taken with same | ⟨type, appended, absent⟩
  · rwa [Sharing.ids, same]
  · rw [Sharing.ids, appended, map_append]
    exact distinct.append (nodup_singleton _) (by simpa using absent)

/-! ## Two processes -/

/-- The call has not appended its type, or the type stands after this one in the dictionary. -/
def Frame.isAfter (types : TypeCache) (typeId : TypeId) : Frame → Bool
  | .entering _ => true
  | .visiting other _ => place types typeId < place types other

/-- Executes steps of two threads; when one looks for its type, what the other one is adding must
stand further on in the dictionary. -/
def quietNext (types : TypeCache) (owner : Bool → π) (sharing : Sharing Bool π)
    (event : SharingEvent Bool π) : Option (Sharing Bool π) :=
  match event with
  | .enter thread =>
    match sharing.threads thread with
    | .entering typeId :: _ =>
      if (sharing.threads !thread).all (Frame.isAfter types typeId) then
        sharing.step types owner event
      else none
    | _ => none
  | _ => sharing.step types owner event

theorem quietNext_sound {owner : Bool → π} (sharing : Sharing Bool π)
    (event : SharingEvent Bool π) (next : Sharing Bool π)
    (taken : quietNext types owner sharing event = some next) :
    QuietStep types owner sharing event next := by
  cases event with
  | enter thread =>
    simp only [quietNext] at taken
    split at taken
    · next typeId below stack =>
      split at taken
      · next apart =>
        refine ⟨?_, taken⟩
        intro other under same another differs inner contains
        rw [stack] at same
        cases same
        rintro ⟨rest, adding⟩
        rw [Bool.eq_not_of_ne differs] at adding
        exact absurd contains.place_le (by simpa [Frame.isAfter] using all_eq_true.mp apart _ adding)
      · cases taken
    · cases taken
  | _ => exact ⟨trivial, taken⟩

/-- A struct with one number. -/
def partType : MessageType where
  superSize := 0
  id := 0x00010004
  name := [80]
  fields := [{ type := 0x2004, length := 0, name := [110] }]
  fieldsCounted := by decide

/-- A struct that contains the other one. -/
def wholeType : MessageType where
  superSize := 0
  id := 0x00020004
  name := [87]
  fields := [{ type := 0x00010004, length := 0, name := [112] }]
  fieldsCounted := by decide

def twoTypes : TypeCache :=
  (TypeCache.empty.add partType (by decide) (by decide) (by decide)).add wholeType
    (by decide) (by decide) (by decide)

/-- Two processes with one thread each know both types. -/
def setUp : List (SharingEvent Bool Bool) :=
  [.add false partType.id, .add false wholeType.id, .add true partType.id, .add true wholeType.id]

/-- The second process adds the part while the first one is adding the fields of the type,
which then finds the part in the list. -/
def sideBySide : List (SharingEvent Bool Bool) :=
  setUp ++ [.addShm false wholeType.id, .enter false, .addShm true partType.id, .enter true,
    .visit false, .visit true, .visit true, .enter false, .visit false]

/-- The second process adds the type when the first one has appended it and not its part. -/
def atOnce : List (SharingEvent Bool Bool) :=
  setUp ++ [.addShm false wholeType.id, .enter false, .addShm true wholeType.id, .enter true]

theorem shared_types_complete_side_by_side :
    ∃ sharing : Sharing Bool Bool, Run (QuietStep twoTypes id) {} sideBySide sharing ∧
      sharing.returned = [partType.id, partType.id, wholeType.id] ∧
      Complete twoTypes sharing := by
  obtain ⟨sharing, executed, returned⟩ : ∃ sharing : Sharing Bool Bool,
      sideBySide.foldlM (quietNext twoTypes id) {} = some sharing ∧
        sharing.returned = [partType.id, partType.id, wholeType.id] :=
    map_eq_some_iff.mp (by decide)
  have run := Run.of_foldlM quietNext_sound (.nil {}) _ executed
  exact ⟨sharing, run, returned, shared_types_complete run⟩

theorem shared_ids_distinct_at_once : ∃ sharing : Sharing Bool Bool,
    atOnce.foldlM (Sharing.step twoTypes id) {} = some sharing ∧ sharing.ids.Nodup := by
  obtain ⟨sharing, executed⟩ := isSome_iff_exists.mp
    (show (atOnce.foldlM (Sharing.step twoTypes id) {}).isSome by decide)
  have run := Run.of_foldlM (fun _ _ _ taken => taken) (.nil _) _ executed
  exact ⟨sharing, executed, shared_ids_distinct run⟩

/-- The call of the second process returns, and the part of its type is not in the list. -/
theorem shared_type_lacks_part :
    ∃ sharing : Sharing Bool Bool,
      atOnce.foldlM (Sharing.step twoTypes id) {} = some sharing ∧
      sharing.returned = [wholeType.id] ∧ sharing.ids = [wholeType.id] ∧
      ¬ Complete twoTypes sharing := by
  obtain ⟨sharing, executed, facts⟩ : ∃ sharing : Sharing Bool Bool,
      atOnce.foldlM (Sharing.step twoTypes id) {} = some sharing ∧
        (sharing.returned, sharing.ids) = ([wholeType.id], [wholeType.id]) :=
    map_eq_some_iff.mp (by decide)
  obtain ⟨returned, ids⟩ := Prod.mk.inj facts
  refine ⟨sharing, executed, returned, ids, ?_⟩
  intro complete
  have contains : Contains twoTypes wholeType.id _ :=
    .nested rfl (mem_singleton_self _) (.self (by decide))
  have member := (complete.whole _ (by simp [returned])).2 _ contains
  rw [ids] at member
  exact absurd member (by decide)

end Miranda.QueueTypes
