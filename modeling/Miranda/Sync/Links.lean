import Mathlib.Data.List.Nodup
import Miranda.Sync.Moves

/-!
# The links of a thread's robust list

The kernel may read a thread's robust list after any store. `Consistent` says for each
place in the code how far the links have got: at every one of them the list leads back
to its head, and the mutexes on it together with the pending one are exactly those the
thread owns. The results say that every step of a thread keeps its own list so.
-/

namespace Miranda.Sync

open Chain State Function

variable {μ κ : Type}

/-- The mutex whose futex or links the thread is working on. -/
def Phase.pending : Phase μ κ → Option μ
  | .getSwap _ m | .lockPi _ m | .trySwap m | .trylockPi m | .finish _ m | .clear _ m
  | .add _ m _ | .close _ m _ | .futexWait _ m _ | .sleeping _ m _ => some m
  | .unlock _ _ .check | .unlock _ _ .pending => none
  | .unlock m _ _ => some m
  | _ => none

/-- The mutex that the thread owns and that is not on its list. -/
def Phase.loose : Phase μ κ → Option μ
  | .finish (.doGet _) m | .clear (.doGet _) m | .add _ m .next | .add _ m (.head _) => some m
  | .unlock m _ (.back _ _) | .unlock m _ .release | .unlock m _ .unlockPi => some m
  | _ => none

theorem Phase.pending_of_loose {phase : Phase μ κ} {m : μ} (loose : phase.loose = some m) :
    phase.pending = some m := by
  unfold Phase.loose at loose
  split at loose <;> first | exact loose | cases loose

def Owns (state : State μ κ) (tid : Tid) (m : μ) : Prop := (state.futex m).owner = some tid

/-- How far the links have got. Between the stores of `Add` and `Remover` some of the
previous pointers are behind. -/
def Links (state : State μ κ) (tid : Tid) (list : List μ) : Phase μ κ → Prop
  | .add _ m (.head old) =>
    Back state.previous (.head tid) (list.map .mutex) ∧ state.next (.mutex m) = old ∧
      state.next (.head tid) = old
  | .add _ m (.previous old) =>
    ∃ rest, list = m :: rest ∧ Back state.previous (.head tid) (rest.map .mutex) ∧
      old = (rest.map .mutex).headD (.head tid)
  | .add _ m (.back old) =>
    ∃ rest, list = m :: rest ∧ state.previous (.mutex m) = .head tid ∧
      Back state.previous (.head tid) (rest.map .mutex) ∧ old = (rest.map .mutex).headD (.head tid)
  | .unlock m _ .pending => Back state.previous (.head tid) (list.map .mutex) ∧ m ∈ list
  | .unlock m _ .next => Back state.previous (.head tid) (list.map .mutex) ∧ m ∈ list
  | .unlock m _ (.back previous next) =>
    ∃ front rest, list = front ++ rest ∧ Back state.previous (.head tid) (front.map .mutex) ∧
      Back state.previous (.mutex m) (rest.map .mutex) ∧
      previous = (front.map .mutex).getLastD (.head tid) ∧
      next = (rest.map .mutex).headD (.head tid)
  | _ => Back state.previous (.head tid) (list.map .mutex)

/-- The robust list of a thread at a place in the code. -/
structure Consistent (state : State μ κ) (tid : Tid) (phase : Phase μ κ) (list : List μ) :
    Prop where
  path : state.Visits tid list
  distinct : list.Nodup
  owned : ∀ m, Owns state tid m ↔ m ∈ list ∨ phase.loose = some m
  loose : ∀ m, phase.loose = some m → m ∉ list
  pending : state.pending tid = phase.pending
  links : Links state tid list phase

section Nodes

variable {α : Type} {tid : Tid} {m : α}

theorem mutex_mem_map {list : List α} : Node.mutex m ∈ list.map Node.mutex ↔ m ∈ list :=
  List.mem_map_of_injective fun _ _ same => Node.mutex.inj same

theorem head_ne_mutex : Node.head tid ≠ Node.mutex m := by
  intro same
  cases same

theorem head_not_mem_map (list : List α) : Node.head tid ∉ list.map Node.mutex := by
  intro member
  obtain ⟨_, _, other⟩ := List.mem_map.mp member
  cases other

/-- A head and the distinct mutexes behind it are distinct nodes. -/
theorem nodup_nodes {list : List α} (distinct : list.Nodup) :
    (Node.head tid :: list.map Node.mutex).Nodup := by
  refine List.nodup_cons.mpr ⟨head_not_mem_map list, ?_⟩
  exact distinct.map fun _ _ same => Node.mutex.inj same

end Nodes

section Stores

variable {state after : State μ κ} {tid : Tid} {phase target : Phase μ κ} {list : List μ} {m : μ}

/-- Only the links of the thread's own mutexes matter. -/
theorem Links.congr (links : Links state tid list phase)
    (head : after.next (.head tid) = state.next (.head tid))
    (next : ∀ m, phase.loose = some m → after.next (.mutex m) = state.next (.mutex m))
    (previous : ∀ m ∈ list, after.previous (.mutex m) = state.previous (.mutex m)) :
    Links after tid list phase := by
  have back : ∀ before part, part ⊆ list → Back state.previous before (part.map .mutex) →
      Back after.previous before (part.map .mutex) := by
    intro before part inside held
    refine held.congr ?_
    intro place member
    obtain ⟨m, inPart, rfl⟩ := List.mem_map.mp member
    exact previous m (inside inPart)
  have whole : Back _ _ _ →
      Back after.previous (.head tid) _ := back _ list (.refl list)
  cases phase with
  | add adding m stage =>
    cases stage with
    | next => exact whole links
    | head old =>
      obtain ⟨held, points, starts⟩ := links
      exact ⟨whole held, (next m rfl).trans points, head.trans starts⟩
    | previous old =>
      obtain ⟨rest, rfl, held, first⟩ := links
      exact ⟨rest, rfl, back _ rest (List.subset_cons_self m rest) held, first⟩
    | back old =>
      obtain ⟨rest, rfl, points, held, first⟩ := links
      exact ⟨rest, rfl, (previous m List.mem_cons_self).trans points,
        back _ rest (List.subset_cons_self m rest) held, first⟩
  | unlock m wait stage =>
    cases stage with
    | pending => exact ⟨whole links.1, links.2⟩
    | next => exact ⟨whole links.1, links.2⟩
    | back before behind =>
      obtain ⟨front, rest, rfl, ahead, held, last, first⟩ := links
      exact ⟨front, rest, rfl, back _ front (List.subset_append_left front rest) ahead,
        back _ rest (List.subset_append_right front rest) held, last, first⟩
    | check | release | unlockPi | close => exact whole links
  | _ => exact whole links

/-- The thread goes on, and owns what it owned. -/
theorem Consistent.rephase (consistent : Consistent state tid phase list)
    (owner : ∀ m, Owns after tid m ↔ Owns state tid m) (next : after.next = state.next)
    (loose : target.loose = phase.loose) (pending : after.pending tid = target.pending)
    (links : Links after tid list target) : Consistent after tid target list where
  path := by
    rw [Visits, next]
    exact consistent.path
  distinct := consistent.distinct
  owned m := by rw [owner, consistent.owned, loose]
  loose m := by
    rw [loose]
    exact consistent.loose m
  pending := pending
  links := links

/-- The same in memory that has not changed. -/
theorem Consistent.goto (consistent : Consistent state tid phase list)
    (loose : target.loose = phase.loose) (pending : target.pending = phase.pending)
    (links : Links state tid list target) :
    Consistent (state.goto tid target) tid target list :=
  consistent.rephase (fun _ => .rfl) rfl loose (consistent.pending.trans pending.symm)
    (links.congr rfl (fun _ _ => rfl) fun _ _ => rfl)

theorem not_owns_of_free (free : (state.futex m).owner = none) : ¬ Owns state tid m := by
  rw [Owns, free]
  exact nofun

variable [DecidableEq μ]

variable {word : Word} {other : μ}

theorem owns_update (stored : after.futex = Function.update state.futex m word) :
    Owns after tid other ↔ if other = m then word.owner = some tid else Owns state tid other := by
  unfold Owns
  rw [stored]
  by_cases same : other = m
  · rw [same, update_self, if_pos rfl]
  · rw [update_of_ne same, if_neg same]

/-- A futex may change in every other way while its owner stays. -/
theorem owns_same_owner (stored : after.futex = Function.update state.futex m word)
    (same : word.owner = (state.futex m).owner) : Owns after tid other ↔ Owns state tid other := by
  rw [owns_update stored]
  split
  · next here => rw [same, here, Owns]
  · rfl

/-- The thread gets a futex that it did not own. -/
theorem Consistent.take (consistent : Consistent state tid phase list) (free : ¬ Owns state tid m)
    (none : phase.loose = none) (stored : after.futex = Function.update state.futex m word)
    (mine : word.owner = some tid) (next : after.next = state.next) (loose : target.loose = some m)
    (pending : after.pending tid = target.pending) (links : Links after tid list target) :
    Consistent after tid target list := by
  have absent : m ∉ list := by
    intro member
    exact free ((consistent.owned m).mpr (.inl member))
  refine ⟨?_, consistent.distinct, ?_, ?_, pending, links⟩
  · rw [Visits, next]
    exact consistent.path
  · intro other
    rw [owns_update stored, loose, Option.some_inj]
    split
    · next same => exact iff_of_true mine (.inr same.symm)
    · next different =>
      rw [consistent.owned, none]
      simp [Ne.symm different]
  · intro other same
    cases loose.symm.trans same
    exact absent

/-- The thread gives up a futex that is not on its list any more. -/
theorem Consistent.give (consistent : Consistent state tid phase list) (mine : phase.loose = some m)
    (stored : after.futex = Function.update state.futex m word) (given : word.owner ≠ some tid)
    (next : after.next = state.next) (loose : target.loose = none)
    (pending : after.pending tid = target.pending) (links : Links after tid list target) :
    Consistent after tid target list := by
  have absent := consistent.loose m mine
  refine ⟨?_, consistent.distinct, ?_, ?_, pending, links⟩
  · rw [Visits, next]
    exact consistent.path
  · intro other
    rw [owns_update stored, loose]
    split
    · next same =>
      subst same
      simp only [given, absent, reduceCtorEq, or_self]
    · next different =>
      rw [consistent.owned, mine]
      simp [Ne.symm different]
  · intro other same
    rw [loose] at same
    cases same

end Stores

/-! ### Putting a mutex on the list -/

section Adding

variable [DecidableEq μ] {state : State μ κ} {tid : Tid} {adding : Adding κ} {m : μ}
  {list : List μ}

theorem addNext_consistent (consistent : Consistent state tid (.add adding m .next) list) :
    Consistent (state.advanceAdd tid adding m .next) tid
      (.add adding m (.head (state.next (.head tid)))) list := by
  have absent := consistent.loose m rfl
  refine ⟨?_, consistent.distinct, consistent.owned, consistent.loose, consistent.pending, ?_⟩
  · refine consistent.path.congr ?_
    intro place member
    apply update_of_ne
    rintro rfl
    rcases List.mem_cons.mp member with same | inside
    · cases same
    · exact absent (mutex_mem_map.mp inside)
  · have head : Node.head tid ≠ .mutex m := head_ne_mutex
    exact ⟨consistent.links, update_self _ _ _,
      update_of_ne head (state.next (.head tid)) _⟩

variable {old : Node μ}

theorem addHead_consistent (consistent : Consistent state tid (.add adding m (.head old)) list) :
    Consistent (state.advanceAdd tid adding m (.head old)) tid
      (.add adding m (.previous old)) (m :: list) := by
  obtain ⟨back, points, starts⟩ := consistent.links
  have absent := consistent.loose m rfl
  refine ⟨?_, List.nodup_cons.mpr ⟨absent, consistent.distinct⟩, ?_, ?_, consistent.pending, ?_⟩
  · exact consistent.path.push (points.trans starts.symm) head_ne_mutex.symm (head_not_mem_map list)
  · intro other
    refine (consistent.owned other).trans ?_
    simp only [Phase.loose, Option.some_inj, List.mem_cons, reduceCtorEq, or_false]
    rw [or_comm, eq_comm]
  · rintro other ⟨⟩
  · exact ⟨list, rfl, back, starts.symm.trans consistent.path.next_eq⟩

theorem addPrevious_consistent
    (consistent : Consistent state tid (.add adding m (.previous old)) list) :
    Consistent (state.advanceAdd tid adding m (.previous old)) tid
      (.add adding m (.back old)) list := by
  obtain ⟨rest, rfl, back, first⟩ := consistent.links
  have absent := (List.nodup_cons.mp consistent.distinct).1
  refine consistent.rephase (fun _ => .rfl) rfl rfl consistent.pending ?_
  refine ⟨rest, rfl, update_self _ _ _, back.update_of_not_mem ?_, first⟩
  exact fun member => absent (mutex_mem_map.mp member)

/-- The last store of `Add` brings the previous pointers up to date. -/
theorem setBack_back {rest : List μ} (distinct : (m :: rest).Nodup)
    (points : state.previous (.mutex m) = .head tid)
    (back : Back state.previous (.head tid) (rest.map .mutex)) :
    Back (state.setBack ((rest.map .mutex).headD (.head tid)) (.mutex m)).previous (.head tid)
      ((m :: rest).map .mutex) := by
  cases rest with
  | nil => exact ⟨points, trivial⟩
  | cons first more =>
    have absent := List.nodup_cons.mp (List.nodup_cons.mp distinct).2
    have different : .mutex m ≠ Node.mutex first := by
      rintro ⟨⟩
      exact (List.nodup_cons.mp distinct).1 List.mem_cons_self
    refine ⟨(update_of_ne different _ _).trans points, back.redirect ?_⟩
    exact fun member => absent.1 (mutex_mem_map.mp member)

theorem setBack_frame (state : State μ κ) (node value : Node μ) :
    (state.setBack node value).futex = state.futex ∧
      (state.setBack node value).next = state.next ∧
      (state.setBack node value).pending = state.pending := by
  cases node <;> exact ⟨rfl, rfl, rfl⟩

theorem addBack_consistent (consistent : Consistent state tid (.add adding m (.back old)) list) :
    Consistent (state.advanceAdd tid adding m (.back old)) tid (afterAdd m adding) list := by
  obtain ⟨rest, rfl, points, back, rfl⟩ := consistent.links
  obtain ⟨futex, next, kept⟩ :=
    setBack_frame state _ _
  have linked := setBack_back consistent.distinct points back
  have owner : ∀ other, Owns (state.advanceAdd tid adding m
      (.back ((rest.map .mutex).headD (.head tid)))) tid other ↔ Owns state tid other := by
    intro other
    rw [Owns, Owns, advanceAdd, goto, futex]
  have pending := (congrFun kept tid).trans consistent.pending
  cases adding with
  | doGet get died | trySwap | trylockPi => exact consistent.rephase owner next rfl pending linked

/-- Every store of `Add` keeps the list consistent. -/
theorem advanceAdd_consistent {stage : AddStage μ}
    (consistent : Consistent state tid (.add adding m stage) list) :
    ∃ longer, Consistent (state.advanceAdd tid adding m stage) tid
      ((state.advanceAdd tid adding m stage).phase tid) longer := by
  cases stage with
  | next =>
    rw [advanceAdd, goto_phase]
    exact ⟨list, addNext_consistent consistent⟩
  | head old =>
    rw [advanceAdd, goto_phase]
    exact ⟨m :: list, addHead_consistent consistent⟩
  | previous old =>
    rw [advanceAdd, goto_phase]
    exact ⟨list, addPrevious_consistent consistent⟩
  | back old =>
    rw [advanceAdd, goto_phase]
    exact ⟨list, addBack_consistent consistent⟩

end Adding

/-! ### Taking a mutex off the list -/

section Removing

variable [DecidableEq μ] {state : State μ κ} {tid : Tid} {m : μ} {wait : Option (κ × UInt32)}
  {list : List μ}

theorem unlockNext_consistent (consistent : Consistent state tid (.unlock m wait .next) list) :
    ∃ shorter, Consistent
      ((state.setNext (state.previous (.mutex m)) (state.next (.mutex m))).goto tid
        (.unlock m wait (.back (state.previous (.mutex m)) (state.next (.mutex m))))) tid
      (.unlock m wait (.back (state.previous (.mutex m)) (state.next (.mutex m)))) shorter := by
  obtain ⟨back, member⟩ := consistent.links
  obtain ⟨front, rest, rfl⟩ := List.append_of_mem member
  have nodes : (Node.head tid :: (front ++ m :: rest).map _).Nodup :=
    nodup_nodes consistent.distinct
  have path := consistent.path
  rw [Visits] at path
  rw [List.map_append] at back nodes path
  obtain ⟨ahead, last, behind⟩ := back_append_cons.mp back
  have first := (path_append_cons.mp path).2.next_eq
  have distinct := List.nodup_middle.mp consistent.distinct
  refine ⟨front ++ rest, ?_, (List.nodup_cons.mp distinct).2, ?_, ?_, consistent.pending, ?_⟩
  · rw [Visits, List.map_append, last]
    exact path.unlink nodes
  · intro other
    refine (consistent.owned other).trans ?_
    simp only [Phase.loose, List.mem_append, List.mem_cons, reduceCtorEq, or_false, Option.some_inj]
    rw [or_left_comm, or_comm, eq_comm]
  · rintro other ⟨⟩
    exact (List.nodup_cons.mp distinct).1
  · exact ⟨front, rest, rfl, ahead, behind, last, first⟩

/-- The second store of `Remover` brings the previous pointers up to date. -/
theorem unlockBack_back {front rest : List μ} (distinct : (front ++ rest).Nodup)
    (ahead : Back state.previous (.head tid) (front.map .mutex))
    (behind : Back state.previous (.mutex m) (rest.map .mutex)) :
    Back (state.setBack ((rest.map .mutex).headD (.head tid))
      ((front.map .mutex).getLastD (.head tid))).previous (.head tid)
      ((front ++ rest).map .mutex) := by
  cases rest with
  | nil =>
    rw [List.append_nil]
    exact ahead
  | cons first more =>
    have absent := List.nodup_cons.mp (List.nodup_middle.mp distinct)
    have inFront : Node.mutex first ∉ front.map _ := fun member =>
      absent.1 (List.mem_append_left more (mutex_mem_map.mp member))
    have inMore : Node.mutex first ∉ more.map _ := fun member =>
      absent.1 (List.mem_append_right front (mutex_mem_map.mp member))
    rw [List.map_append]
    refine back_append_cons.mpr ⟨ahead.update_of_not_mem inFront, update_self _ _ _, ?_⟩
    exact behind.2.update_of_not_mem inMore

theorem unlockBack_consistent {previous next : Node μ}
    (consistent : Consistent state tid (.unlock m wait (.back previous next)) list) :
    Consistent ((state.setBack next previous).goto tid (.unlock m wait .release)) tid
      (.unlock m wait .release) list := by
  obtain ⟨front, rest, rfl, ahead, behind, rfl, rfl⟩ := consistent.links
  obtain ⟨futex, kept, pending⟩ := setBack_frame state _
    _
  refine consistent.rephase ?_ kept rfl ((congrFun pending tid).trans consistent.pending) ?_
  · intro other
    rw [Owns, Owns, goto, futex]
  · exact unlockBack_back consistent.distinct ahead behind

end Removing

/-! ### Steps of the thread -/

section Steps

variable {state after : State μ κ} {tid : Tid} {list : List μ} {m : μ}

/-- A place where the thread owns exactly what is on its list, and the previous pointers
are right. -/
structure Plain (phase : Phase μ κ) (pending : Option μ) : Prop where
  loose : phase.loose = none
  pending : phase.pending = pending
  links : ∀ (state : State μ κ) tid list, Links state tid list phase =
    Back state.previous (.head tid) (list.map .mutex)

theorem afterAdder_plain (m : μ) (call : Call κ) : Plain (afterAdder m call) (some m) := by
  cases call with
  | doGet get => cases get <;> exact ⟨rfl, rfl, fun _ _ _ => rfl⟩
  | trylock => exact ⟨rfl, rfl, fun _ _ _ => rfl⟩

theorem afterSignal_plain (get : Get κ) (m : μ) : Plain (afterSignal get m) (some m) := by
  unfold afterSignal
  split <;> exact ⟨rfl, rfl, fun _ _ _ => rfl⟩

theorem afterUnlock_plain (m : μ) (wait : Option (κ × UInt32)) : Plain (afterUnlock m wait) none := by
  cases wait <;> exact ⟨rfl, rfl, fun _ _ _ => rfl⟩

theorem begin_plain (operation : Operation μ κ) : Plain operation.begin none := by
  cases operation <;> exact ⟨rfl, rfl, fun _ _ _ => rfl⟩

/-- Going to a plain place, with the pending mutex stored. -/
theorem Consistent.plain {phase target : Phase μ κ} {pending : Option μ}
    (consistent : Consistent state tid phase list) (none : phase.loose = none)
    (back : Back state.previous (.head tid) (list.map .mutex)) (plain : Plain target pending) :
    Consistent ((state.setPending tid pending).goto tid target) tid target list := by
  refine consistent.rephase (fun _ => .rfl) rfl (plain.loose.trans none.symm) ?_ ?_
  · rw [plain.pending]
    exact update_self _ _ _
  · rw [plain.links]
    exact back

/-- What `mutex_finish_lock` goes on to. -/
theorem afterFinish_links (m : μ) (died : Bool) (call : Call κ) :
    (afterFinish m died call).loose = (Phase.finish call m : Phase μ κ).loose ∧
      (afterFinish m died call).pending = some m ∧
      ∀ (state : State μ κ) tid list, Links state tid list (afterFinish m died call) =
        Back state.previous (.head tid) (list.map .mutex) := by
  cases call <;> exact ⟨rfl, rfl, fun _ _ _ => rfl⟩

/-- A step from the place where the thread is to another one. -/
theorem Consistent.step {memory : State μ κ} {phase target : Phase μ κ}
    (consistent : Consistent state tid (state.phase tid) list) (before : state.phase tid = phase)
    (keeps : Consistent state tid phase list →
      ∃ changed, Consistent (memory.goto tid target) tid target changed) :
    ∃ changed, Consistent (memory.goto tid target) tid
      ((memory.goto tid target).phase tid) changed := by
  rw [before] at consistent
  rw [goto_phase]
  exact keeps consistent

variable [DecidableEq μ] [DecidableEq κ]

/-- Every step of a thread keeps its own list consistent. -/
theorem Move.consistent (move : Move state tid after)
    (consistent : Consistent state tid (state.phase tid) list) :
    ∃ changed, Consistent after tid (after.phase tid) changed := by
  cases move with
  | @adder call m phase =>
    exact consistent.step phase fun own => ⟨list, own.plain rfl own.links (afterAdder_plain m call)⟩
  | @getSwap _ m phase free | @trySwap m phase free =>
    have unowned : (state.futex m).owner = none := by rw [free]
    exact consistent.step phase fun own =>
      ⟨list, own.take (not_owns_of_free unowned) rfl rfl rfl rfl rfl own.pending own.links⟩
  | getTaken phase | timedOut phase | tryDied phase | contended phase | read phase | again phase =>
    exact consistent.step phase fun own => ⟨list, own.goto rfl rfl own.links⟩
  | acquire waiters phase free | tryAcquire waiters phase free =>
    exact consistent.step phase fun own =>
      ⟨list, own.take (not_owns_of_free free) rfl rfl rfl rfl rfl own.pending own.links⟩
  | block phase =>
    refine ⟨list, consistent.rephase ?_ rfl rfl consistent.pending consistent.links⟩
    exact fun _ => owns_same_owner rfl rfl
  | @signal get m phase =>
    rw [phase] at consistent
    rw [goto_phase]
    have plain := afterSignal_plain get m
    refine ⟨list, consistent.goto plain.loose plain.pending ?_⟩
    rw [plain.links]
    exact consistent.links
  | deadlock phase | notOwner phase | close phase =>
    exact consistent.step phase fun own =>
      ⟨list, own.plain rfl own.links ⟨rfl, rfl, fun _ _ _ => rfl⟩⟩
  | tryTaken phase =>
    rcases phase with phase | phase <;>
      exact consistent.step phase fun own => ⟨list, own.goto rfl rfl own.links⟩
  | @finishDied call m phase died =>
    cases call with
    | doGet get | trylock =>
      exact consistent.step phase fun own => ⟨list, own.goto rfl rfl own.links⟩
  | @finish call m phase clean =>
    rw [phase] at consistent
    rw [goto_phase]
    obtain ⟨loose, pending, links⟩ := afterFinish_links m false call
    refine ⟨list, consistent.goto loose pending ?_⟩
    rw [links]
    exact consistent.links
  | @clear call m phase =>
    rw [phase] at consistent
    rw [goto_phase]
    obtain ⟨loose, pending, links⟩ := afterFinish_links m true call
    have same : (.finish call m : Phase μ κ).loose = (Phase.clear call m).loose := by
      cases call <;> rfl
    refine ⟨list, consistent.rephase (fun _ => owns_same_owner rfl rfl) rfl (loose.trans same)
      (consistent.pending.trans pending.symm) ?_⟩
    rw [links]
    exact consistent.links
  | add phase =>
    rw [phase] at consistent
    exact advanceAdd_consistent consistent
  | @check m wait phase own =>
    rw [phase] at consistent
    rw [goto_phase]
    have member : m ∈ list := ((consistent.owned m).mp own).resolve_right nofun
    exact ⟨list, consistent.goto rfl rfl ⟨consistent.links, member⟩⟩
  | unlockPending phase =>
    exact consistent.step phase fun own =>
      ⟨list, own.rephase (fun _ => .rfl) rfl rfl (update_self _ _ _) own.links⟩
  | unlockNext phase =>
    exact consistent.step phase unlockNext_consistent
  | unlockBack phase =>
    exact consistent.step phase fun own => ⟨list, unlockBack_consistent own⟩
  | release phase =>
    rcases phase with phase | phase <;> exact consistent.step phase fun own =>
      ⟨list, own.give rfl rfl nofun rfl rfl own.pending own.links⟩
  | @handOver m wait waiter get waiters phase waiting =>
    have other : some waiter ≠ some tid := by
      rintro ⟨⟩
      cases phase.symm.trans waiting
    exact consistent.step phase fun own =>
      ⟨list, own.give rfl rfl other rfl rfl own.pending own.links⟩
  | @unlockClose m wait phase =>
    exact consistent.step phase fun own => ⟨list, own.plain rfl own.links (afterUnlock_plain m wait)⟩
  | sleep phase | sleepInterrupted phase | spurious phase | increment phase | wake phase =>
    exact consistent.step phase fun own =>
      ⟨list, own.rephase (fun _ => .rfl) rfl rfl own.pending own.links⟩
  | waitInterrupted phase => exact ⟨list, consistent⟩

end Steps

end Miranda.Sync
